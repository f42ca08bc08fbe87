import StencilTiling.Device.Basic

/-! The keys of a device description: the levels each applies to and the values
it takes. -/

namespace StencilTiling

/-- Levels of the device hierarchy. -/
inductive DeviceLevel where
  | device
  | unit
  | element
  deriving DecidableEq, Repr

namespace DeviceLevel

def all : List DeviceLevel := [device, unit, element]

def text : DeviceLevel → String
  | device => "device"
  | unit => "compute unit"
  | element => "compute element"

/-- The name of a level that was given none. -/
def defaultName : DeviceLevel → String
  | device => "device"
  | unit => "unit"
  | element => "element"

/-- The word that opens the section of a level. -/
def ofSection? : String → Option DeviceLevel
  | "device" => some device
  | "compute_unit" => some unit
  | "compute_element" => some element
  | _ => none

end DeviceLevel

/-- What follows a key. -/
inductive ValueKind where
  | flag
  | integer
  | identifier
  deriving DecidableEq, Repr

inductive DeviceProperty where
  | computeUnits
  | computeElements
  | memorySize
  | cacheSize
  | connectivityToExt
  | connectivityToLateral
  | floatSupport
  | doubleSupport
  | longSupport
  | swThreads
  | dataCache
  | hwThreads
  deriving DecidableEq, Repr

namespace DeviceProperty

def all : List DeviceProperty :=
  [computeUnits, computeElements, memorySize, cacheSize, connectivityToExt, connectivityToLateral,
    floatSupport, doubleSupport, longSupport, swThreads, dataCache, hwThreads]

def text : DeviceProperty → String
  | computeUnits => "nbComputeUnits"
  | computeElements => "nbComputeElements"
  | memorySize => "memorySize"
  | cacheSize => "cacheSize"
  | connectivityToExt => "dataConnectivityToExt"
  | connectivityToLateral => "dataConnectivityToLateral"
  | floatSupport => "Tfloat"
  | doubleSupport => "Tdouble"
  | longSupport => "Tlong"
  | swThreads => "swThreads"
  | dataCache => "dataCache"
  | hwThreads => "nbHwThreads"

def ofText? (s : String) : Option DeviceProperty := all.find? (·.text == s)

def levels : DeviceProperty → List DeviceLevel
  | computeUnits => [.device]
  | computeElements => [.unit]
  | memorySize => [.device, .unit, .element]
  | cacheSize | dataCache | connectivityToExt | connectivityToLateral => [.unit, .element]
  | floatSupport | doubleSupport | longSupport | swThreads | hwThreads => [.element]

def kind : DeviceProperty → ValueKind
  | computeUnits | computeElements | memorySize | cacheSize | hwThreads => .integer
  | connectivityToExt | connectivityToLateral | floatSupport | doubleSupport | longSupport => .identifier
  | swThreads | dataCache => .flag

/-- Values add up instead of replacing one another. -/
def isCumulative : DeviceProperty → Bool
  | connectivityToExt | connectivityToLateral => true
  | _ => false

/-- The support values a type key takes; single precision cannot be absent. -/
def acceptedSupport : DeviceProperty → List Support
  | floatSupport => [.soft, .native]
  | _ => [.no, .soft, .native]

end DeviceProperty

end StencilTiling
