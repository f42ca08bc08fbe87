import StencilTiling.Proofs.Analysis.DataOrder
import StencilTiling.Proofs.Analysis.Pass

/-! What the tile pass records. On a validated kernel with a topological order it
never fails, and the recorded tiles solve the equations of the three sweeps: every
feed grain and halo follows from those of the consumers, every grain from those of
the producer's reads. -/

namespace StencilTiling.Analysis

/-! ### The equations -/

/-- The grain of a source that gives an edge's target whole blocks of a feed grain. -/
def neededSize (k : Kernel) (feed : DataId → Size) (e : Edge) : Size :=
  match k.nodes[e.target]? with
  | some n => ((feed n.output).divCeil n.outStride).mul n.inStride
  | none => .empty

/-- What a feed grain is a common multiple of. -/
def feedOperands (k : Kernel) (feed : DataId → Size) (d : DataItem) : List Size :=
  (k.usersOf d).map (neededSize k feed) ++ ((k.producerOf d).map Node.outStride).toList

/-- What a node makes of a grain of one of its reads. -/
def yieldedSize (n : Node) (source : Size) : Size := (source.divCeil n.inStride).mul n.outStride

/-- What a grain is a common multiple of, besides the feed grain. -/
def grainOperands (k : Kernel) (grain : DataId → Size) (d : DataItem) : List Size :=
  match k.producerOf d with
  | some n => (k.inputEdges n).map fun e => yieldedSize n (grain e.source)
  | none => []

/-- The halo one edge asks of its source. -/
def askedHalo (k : Kernel) (halo : DataId → Window) (e : Edge) : Window :=
  match k.nodes[e.target]? with
  | some n => ((halo n.output).scale n.inStride n.outStride).add (e.read.subSize n.inStride)
  | none => .empty

/-- What a halo covers. -/
def haloOperands (k : Kernel) (halo : DataId → Window) (d : DataItem) : List Window :=
  (k.usersOf d).map (askedHalo k halo)

/-- The tile of an item follows from the tiles of its neighbours. -/
structure TileOf (k : Kernel) (tile : DataId → Tile) (d : DataItem) (t : Tile) : Prop where
  feed : t.feedGrain = (feedOperands k (fun x => (tile x).feedGrain) d).foldl Size.lcm (.ones d.rank)
  grain : t.grain = (grainOperands k (fun x => (tile x).grain) d).foldl Size.lcm t.feedGrain
  rate : t.rate = ((k.producerOf d).map fun n => t.grain.divCeil n.outStride).getD t.grain
  halo : t.halo =
    ((haloOperands k (fun x => (tile x).halo) d).foldl Window.union (.zero d.rank)).inflate t.grain
  reads : t.reads = ((k.usersOf d).map Edge.read).foldl Window.union (.zero d.rank)

/-- The tile recorded for an item, empty if there is none. -/
def tileAt (k : Kernel) (d : DataId) : Tile := ((k.data[d]?).bind fun item => item.note.tile).getD {}

/-- A validated kernel without cycles in which every iterative item has a tile, and the
tiles solve their equations. -/
structure Tiled (k : Kernel) : Prop where
  wellFormed : k.WellFormed
  valid : k.Valid
  ordered : ∃ ds, DataOrder k ds
  tile_eq : ∀ {i : DataId} {d : DataItem}, k.data[i]? = some d → d.iterative = true →
    ∃ t, d.note.tile = some t ∧ TileOf k (tileAt k) d t

/-! ### The sweeps -/

section Sweeps

variable {k : Kernel} (h : k.WellFormed) (hv : k.Valid) {i : DataId} {d : DataItem}
  (hd : k.data[i]? = some d)

include h hv hd

theorem feedGrain_eq_ok (feed : DataId → Size) :
    feedGrain k feed d = .ok ((feedOperands k feed d).foldl Size.lcm (.ones d.rank)) := by
  have hneeded : ∀ e ∈ k.usersOf d, neededGrain k feed e = .ok (neededSize k feed e) := by
    intro e he
    obtain ⟨n, hn⟩ := h.exists_target ((h.mem_usersOf_iff hd).mp he).1
    rw [neededGrain, Kernel.node_eq_ok.mpr hn, neededSize, hn]
    show (Size.divCeil? _ _ >>= _) = _
    rw [Size.divCeil?_of_pos (hv.outStride_pos hn)]
    rfl
  unfold feedGrain
  rw [foldlM_of_ok (g := fun grain e => grain.lcm (neededSize k feed e))]
  · rw [feedOperands, List.foldl_append, List.foldl_map]
    cases k.producerOf d <;> rfl
  · intro e he grain
    rw [hneeded e he]
    rfl

theorem grainRate_eq_ok (own : Size) (grains : DataId → Size × Size) :
    ∃ grain rate, grainRate k own grains d = .ok (grain, rate) ∧
      grain = (grainOperands k (fun x => (grains x).1) d).foldl Size.lcm own ∧
      rate = ((k.producerOf d).map fun n => grain.divCeil n.outStride).getD own := by
  refine ⟨_, _, ?_, rfl, rfl⟩
  unfold grainRate grainOperands
  cases hp : k.producerOf d with
  | none => rfl
  | some n =>
    obtain ⟨hn, -⟩ := h.output_of_producerOf hd hp
    dsimp only
    rw [foldlM_of_ok (g := fun grain e => grain.lcm (yieldedSize n (grains e.source).1))]
    · rw [List.foldl_map]
      show (Size.divCeil? _ _ >>= _) = _
      rw [Size.divCeil?_of_pos (hv.outStride_pos hn)]
      rfl
    · intro e he grain
      rw [yieldedGrain, Size.divCeil?_of_pos (hv.inStride_pos hn)]
      rfl

omit hv in
theorem haloReads_eq_ok (grain : Size) (halos : DataId → Window × Window) :
    ∃ halo reads, haloReads k grain halos d = .ok (halo, reads) ∧
      halo = ((haloOperands k (fun x => (halos x).1) d).foldl Window.union
        (.zero d.rank)).inflate grain ∧
      reads = ((k.usersOf d).map Edge.read).foldl Window.union (.zero d.rank) := by
  refine ⟨_, _, ?_, rfl, rfl⟩
  have hpair : ∀ (l : List Edge) (a b : Window),
      l.foldl (fun acc e => (acc.1.union (askedHalo k (fun x => (halos x).1) e), acc.2.union e.read))
        (a, b) =
      ((l.map (askedHalo k fun x => (halos x).1)).foldl Window.union a,
        (l.map Edge.read).foldl Window.union b) := by
    intro l
    induction l with
    | nil => exact fun _ _ => rfl
    | cons e rest ih => exact fun _ _ => ih _ _
  unfold haloReads
  rw [foldlM_of_ok (g := fun acc e =>
    (acc.1.union (askedHalo k (fun x => (halos x).1) e), acc.2.union e.read)), hpair]
  · rfl
  · intro e he acc
    obtain ⟨n, hn⟩ := h.exists_target ((h.mem_usersOf_iff hd).mp he).1
    rw [Kernel.node_eq_ok.mpr hn, askedHalo, hn]
    rfl

end Sweeps

/-! ### Locality -/

section Locality

variable {k : Kernel} (h : k.WellFormed) {i : DataId} {d : DataItem} (hd : k.data[i]? = some d)

include h hd

/-- A consumer is reached through the item it writes. -/
theorem feeds_of_mem_usersOf {e : Edge} (he : e ∈ k.usersOf d) {n : Node}
    (hn : k.nodes[e.target]? = some n) : Feeds k i n.output :=
  have ⟨hmem, hs⟩ := (h.mem_usersOf_iff hd).mp he
  ⟨e, hmem, n, hn, hs, rfl⟩

/-- The producer's reads feed the item. -/
theorem feeds_of_mem_inputEdges {n : Node} (hp : k.producerOf d = some n) {e : Edge}
    (he : e ∈ k.inputEdges n) : Feeds k e.source i := by
  obtain ⟨hn, ho⟩ := h.output_of_producerOf hd hp
  obtain ⟨hmem, ht⟩ := (h.mem_inputEdges_iff hn).mp he
  exact ⟨e, hmem, n, ht ▸ hn, rfl, ho⟩

theorem feedOperands_congr {feed feed' : DataId → Size} (hx : ∀ x, Feeds k i x → feed x = feed' x) :
    feedOperands k feed d = feedOperands k feed' d := by
  unfold feedOperands
  congr 1
  refine List.map_congr_left fun e he => ?_
  unfold neededSize
  split
  · next n hn => rw [hx _ (feeds_of_mem_usersOf h hd he hn)]
  · rfl

theorem haloOperands_congr {halo halo' : DataId → Window} (hx : ∀ x, Feeds k i x → halo x = halo' x) :
    haloOperands k halo d = haloOperands k halo' d := by
  refine List.map_congr_left fun e he => ?_
  unfold askedHalo
  split
  · next n hn => rw [hx _ (feeds_of_mem_usersOf h hd he hn)]
  · rfl

theorem grainOperands_congr {grain grain' : DataId → Size}
    (hx : ∀ x, Feeds k x i → grain x = grain' x) : grainOperands k grain d = grainOperands k grain' d := by
  unfold grainOperands
  split
  · next n hp => exact List.map_congr_left fun e he => by rw [hx _ (feeds_of_mem_inputEdges h hd hp he)]
  · rfl

theorem TileOf.congr {tile tile' : DataId → Tile} {t : Tile} (ht : TileOf k tile d t)
    (hx : ∀ x, Feeds k i x ∨ Feeds k x i → tile x = tile' x) : TileOf k tile' d t where
  feed := by
    rw [ht.feed, feedOperands_congr h hd fun x hf => congrArg Tile.feedGrain (hx x (.inl hf))]
  grain := by
    rw [ht.grain, grainOperands_congr h hd fun x hf => congrArg Tile.grain (hx x (.inr hf))]
  rate := ht.rate
  halo := by
    rw [ht.halo, haloOperands_congr h hd fun x hf => congrArg Tile.halo (hx x (.inl hf))]
  reads := ht.reads

end Locality

/-- The equations are about the graph. -/
theorem TileOf.transfer {k k' : Kernel} (hk : Keeps DataItem.reset k k') {tile : DataId → Tile}
    {d d' : DataItem} (hd : d'.reset = d.reset) {t : Tile} (ht : TileOf k tile d t) :
    TileOf k' tile d' t := by
  have husers : k'.usersOf d' = k.usersOf d := by
    rw [Kernel.usersOf, Kernel.usersOf, hk.edges, show d'.users = d.users from congrArg (·.users) hd]
  have hproducer : k'.producerOf d' = k.producerOf d := by
    rw [Kernel.producerOf, Kernel.producerOf, hk.nodes,
      show d'.producer = d.producer from congrArg (·.producer) hd]
  have hrank : d'.rank = d.rank := congrArg (·.shape.length) hd
  have hneeded : neededSize k' = neededSize k := by
    funext feed e
    rw [neededSize, neededSize, hk.nodes]
  have hasked : askedHalo k' = askedHalo k := by
    funext halo e
    rw [askedHalo, askedHalo, hk.nodes]
  have hinput : k'.inputEdges = k.inputEdges := by
    funext n
    rw [Kernel.inputEdges, Kernel.inputEdges, hk.edges]
  refine ⟨?_, ?_, ?_, ?_, ?_⟩
  · rw [feedOperands, husers, hproducer, hrank, hneeded]
    exact ht.feed
  · rw [grainOperands, hproducer, hinput]
    exact ht.grain
  · rw [hproducer]
    exact ht.rate
  · rw [haloOperands, husers, hrank, hasked]
    exact ht.halo
  · rw [husers, hrank]
    exact ht.reads

section Tables

variable {k : Kernel} {ds : List DataId} (h : k.WellFormed) (ho : DataOrder k ds)

include h ho

theorem feedGrains_eq_ok (hv : k.Valid) :
    ∃ feed, feedGrains k ds = .ok feed ∧ ∀ i ∈ ds, ∀ d, k.data[i]? = some d →
      feed i = (feedOperands k feed d).foldl Size.lcm (.ones d.rank) := by
  refine foldrM_assign (P := fun feed i v => ∀ d, k.data[i]? = some d →
    v = (feedOperands k feed d).foldl Size.lcm (.ones d.rank)) ho.ordered ho.irrefl
    (fun i hi feed => ?_) (fun i hi t t' v hx hP d hd => ?_) _
  · obtain ⟨d, hd⟩ := ho.exists_item hi
    refine ⟨(feedOperands k feed d).foldl Size.lcm (.ones d.rank), ?_, fun d' hd' => ?_⟩
    · rw [Kernel.item_eq_ok.mpr hd]
      show (feedGrain k feed d >>= _) = _
      rw [feedGrain_eq_ok h hv hd]
      rfl
    · rw [Option.some.inj (hd.symm.trans hd')]
  · rw [hP d hd, feedOperands_congr h hd hx]

theorem grainRates_eq_ok (hv : k.Valid) (feed : DataId → Size) :
    ∃ grains, grainRates k feed ds = .ok grains ∧ ∀ i ∈ ds, ∀ d, k.data[i]? = some d →
      (grains i).1 = (grainOperands k (fun x => (grains x).1) d).foldl Size.lcm (feed i) ∧
        (grains i).2 =
          ((k.producerOf d).map fun n => (grains i).1.divCeil n.outStride).getD (feed i) := by
  refine foldlM_assign (P := fun (grains : DataId → Size × Size) i v => ∀ d, k.data[i]? = some d →
    v.1 = (grainOperands k (fun x => (grains x).1) d).foldl Size.lcm (feed i) ∧
      v.2 = ((k.producerOf d).map fun n => v.1.divCeil n.outStride).getD (feed i))
    (R := fun i x => Feeds k x i) ho.ordered ho.irrefl
    (fun i hi grains => ?_) (fun i hi t t' v hx hP d hd => ?_) _
  · obtain ⟨d, hd⟩ := ho.exists_item hi
    obtain ⟨grain, rate, hok, heq⟩ := grainRate_eq_ok h hv hd (feed i) grains
    refine ⟨(grain, rate), ?_, fun d' hd' => Option.some.inj (hd.symm.trans hd') ▸ heq⟩
    rw [Kernel.item_eq_ok.mpr hd]
    show (grainRate k (feed i) grains d >>= _) = _
    rw [hok]
    rfl
  · rw [← grainOperands_congr h hd fun x hf => congrArg Prod.fst (hx x hf)]
    exact hP d hd

theorem halosReads_eq_ok (grains : DataId → Size × Size) :
    ∃ halos, halosReads k grains ds = .ok halos ∧ ∀ i ∈ ds, ∀ d, k.data[i]? = some d →
      (halos i).1 = ((haloOperands k (fun x => (halos x).1) d).foldl Window.union
          (.zero d.rank)).inflate (grains i).1 ∧
        (halos i).2 = ((k.usersOf d).map Edge.read).foldl Window.union (.zero d.rank) := by
  refine foldrM_assign (P := fun (halos : DataId → Window × Window) i v => ∀ d, k.data[i]? = some d →
    v.1 = ((haloOperands k (fun x => (halos x).1) d).foldl Window.union
        (.zero d.rank)).inflate (grains i).1 ∧
      v.2 = ((k.usersOf d).map Edge.read).foldl Window.union (.zero d.rank)) ho.ordered ho.irrefl
    (fun i hi halos => ?_) (fun i hi t t' v hx hP d hd => ?_) _
  · obtain ⟨d, hd⟩ := ho.exists_item hi
    obtain ⟨halo, reads, hok, heq⟩ := haloReads_eq_ok h hd (grains i).1 halos
    refine ⟨(halo, reads), ?_, fun d' hd' => Option.some.inj (hd.symm.trans hd') ▸ heq⟩
    rw [Kernel.item_eq_ok.mpr hd]
    show (haloReads k (grains i).1 halos d >>= _) = _
    rw [hok]
    rfl
  · rw [← haloOperands_congr h hd fun x hf => congrArg Prod.fst (hx x hf)]
    exact hP d hd

/-- The tiles are computed, and each follows from its neighbours. -/
theorem tiles_eq_ok (hv : k.Valid) :
    ∃ tile, tiles k ds = .ok tile ∧
      ∀ i ∈ ds, ∀ d, k.data[i]? = some d → TileOf k tile d (tile i) := by
  obtain ⟨feed, hfeed, hf⟩ := feedGrains_eq_ok h ho hv
  obtain ⟨grains, hgrains, hg⟩ := grainRates_eq_ok h ho hv feed
  obtain ⟨halos, hhalos, hh⟩ := halosReads_eq_ok h ho grains
  refine ⟨fun i => ⟨feed i, (grains i).1, (grains i).2, (halos i).1, (halos i).2⟩, ?_, ?_⟩
  · unfold tiles
    rw [hfeed]
    show (grainRates k feed ds >>= _) = _
    rw [hgrains]
    show (halosReads k grains ds >>= _) = _
    rw [hhalos]
    rfl
  · intro i hi d hd
    obtain ⟨hgrain, hrate⟩ := hg i hi d hd
    obtain ⟨hhalo, hreads⟩ := hh i hi d hd
    refine ⟨hf i hi d hd, hgrain, hrate.trans ?_, hhalo, hreads⟩
    cases hp : k.producerOf d with
    | none =>
      -- an item without a producer keeps its feed grain
      rw [grainOperands, hp] at hgrain
      exact hgrain.symm
    | some n => rfl

end Tables

/-! ### The pass -/

/-- Over different items every tile is handed out. -/
theorem handOut_of_nodup (tile : DataId → Tile) {ds : List DataId} (hnodup : ds.Nodup) :
    handOut tile ds = ds.map fun d => (d, tile d) := by
  refine List.ext_getElem (by simp [handOut]) fun i hi hi' => ?_
  rw [List.length_map] at hi'
  have hfresh : ds[i] ∉ ds.take i := by
    intro hmem
    obtain ⟨j, hj, hij⟩ := List.mem_take_iff_getElem.mp hmem
    have := (List.Nodup.getElem_inj_iff hnodup).mp hij
    omega
  simp [handOut, hfresh]

/-- An item with its tile. -/
def tiled (d : DataItem) (t : Tile) : DataItem := { d with note := { d.note with tile := some t } }

/-- Only the tile of the named item changes, which has no cycle yet. -/
theorem recordTile_eq_ok {k : Kernel} {entry : DataId × Tile} {d : DataId} {item' : DataItem}
    (h : recordTile k entry = .ok (d, item')) :
    d = entry.1 ∧ ∃ item, k.data[d]? = some item ∧ item.note.stage = .unscheduled ∧
      item' = tiled item entry.2 := by
  obtain ⟨item, hitem, h⟩ := bind_eq_ok.mp h
  obtain ⟨rfl, hget, hset⟩ := record_eq_ok hitem h
  obtain ⟨note, hnote, rfl⟩ := annotate_eq_ok.mp hset
  unfold Annotation.setTile at hnote
  split_ifs at hnote with hs
  exact ⟨rfl, item, hget, hs, by rw [← Except.ok.inj hnote]; rfl⟩

theorem revises_recordTile : Revises recordTile DataItem.reset Prod.fst := by
  intro k entry d item' h
  obtain ⟨hd, item, hitem, -, rfl⟩ := recordTile_eq_ok h
  exact ⟨hd, item, hitem, rfl⟩

/-- Tiles can be recorded as long as no cycle is assigned. -/
theorem recordTile_of_unscheduled {k : Kernel} {entry : DataId × Tile} {item : DataItem}
    (hd : k.data[entry.1]? = some item) (hs : item.note.stage = .unscheduled) :
    ∃ r, recordTile k entry = .ok r := by
  have hset : item.setTile entry.2 = .ok (tiled item entry.2) := by
    rw [DataItem.setTile, DataItem.annotate, Annotation.setTile, if_pos hs]
    rfl
  exact ⟨_, bind_eq_ok.mpr ⟨item, item_of_getElem? hd, record_of_ok hset _⟩⟩

theorem tileAt_of_keeps {k k' : Kernel} (hk : Keeps tileView k k') : tileAt k' = tileAt k := by
  funext i
  have := congrArg (fun l => (l[i]?).bind fun d : DataItem => d.note.tile) hk.data
  simp only [List.getElem?_map, Option.bind_map, Function.comp_def, tileView] at this
  rw [tileAt, tileAt, this]

/-- Passes that leave the tiles alone keep their equations. -/
theorem Tiled.of_keeps {k k' : Kernel} (ht : Tiled k) (hk : Keeps tileView k k') : Tiled k' := by
  have hg := hk.of_tileView
  obtain ⟨ds, ho⟩ := ht.ordered
  refine ⟨ht.wellFormed.of_sameGraph hg.sameGraph, ht.valid.of_sameGraph hg.sameGraph,
    ⟨ds, ho.of_keeps hg⟩, fun {i d'} hd' hiter => ?_⟩
  obtain ⟨d, hd, hview⟩ := hk.exists_item hd'
  obtain ⟨t, htile, heq⟩ := ht.tile_eq hd ((congrArg (·.iterative) hview).symm.trans hiter)
  have hreset : (tileView d').reset = (tileView d).reset := congrArg DataItem.reset hview
  refine ⟨t, (congrArg (·.note.tile) hview).trans htile, ?_⟩
  rw [tileAt_of_keeps hk]
  exact heq.transfer hg (show d'.reset = d.reset from hreset)

/-- The recorded tile of an iterative item. -/
theorem Tiled.tileAt_eq {k : Kernel} (ht : Tiled k) {i : DataId} {d : DataItem}
    (hd : k.data[i]? = some d) (hi : d.iterative = true) :
    d.note.tile = some (tileAt k i) ∧ TileOf k (tileAt k) d (tileAt k i) := by
  obtain ⟨t, htile, heq⟩ := ht.tile_eq hd hi
  have : tileAt k i = t := by rw [tileAt, hd, Option.bind_some, htile, Option.getD_some]
  exact this ▸ ⟨htile, heq⟩

/-- The tiles to record: those of the images in order, then empty ones for control scalars. -/
def tileEntries (k : Kernel) (ds : List DataId) (tile : DataId → Tile) : List (DataId × Tile) :=
  (ds.map fun d => (d, tile d)) ++ (k.data.filter (·.isControl)).map fun d => (d.id, ({} : Tile))

section Entries

variable {k : Kernel} (h : k.WellFormed) {ds : List DataId} (ho : DataOrder k ds)
  {tile : DataId → Tile}

theorem keys_tileEntries : (tileEntries k ds tile).map Prod.fst =
    ds ++ (k.data.filter (·.isControl)).map DataItem.id := by
  simp [tileEntries, Function.comp_def]

include h

theorem exists_control {i : DataId} (hi : i ∈ (k.data.filter (·.isControl)).map DataItem.id) :
    ∃ d, k.data[i]? = some d ∧ d.iterative = false := by
  obtain ⟨d, hd, rfl⟩ := List.mem_map.mp hi
  obtain ⟨hmem, hc⟩ := List.mem_filter.mp hd
  exact ⟨d, h.getElem?_id hmem, by simpa [DataItem.isControl] using hc⟩

include ho

/-- Images come from the order, control scalars from the arena, so no item comes twice. -/
theorem nodup_tileEntries : ((tileEntries k ds tile).map Prod.fst).Nodup := by
  rw [keys_tileEntries]
  refine List.nodup_append.mpr ⟨ho.nodup, ?_, ?_⟩
  · exact (h.data_ids ▸ List.nodup_range).sublist (List.filter_sublist.map _)
  · rintro i hi _ hj rfl
    obtain ⟨d, hd, hiter⟩ := (ho.mem_iff i).mp hi
    obtain ⟨d', hd', hc⟩ := exists_control h hj
    obtain rfl := Option.some.inj (hd.symm.trans hd')
    simp [hc] at hiter

theorem exists_item_of_mem_tileEntries {entry : DataId × Tile} (hentry : entry ∈ tileEntries k ds tile) :
    ∃ item, k.data[entry.1]? = some item := by
  have hkey := List.mem_map_of_mem (f := Prod.fst) hentry
  rw [keys_tileEntries] at hkey
  rcases List.mem_append.mp hkey with hi | hi
  · exact ho.exists_item hi
  · obtain ⟨d, hd, -⟩ := exists_control h hi
    exact ⟨d, hd⟩

/-- Every item is listed, a control scalar with an empty tile. -/
theorem mem_tileEntries {i : DataId} {d : DataItem} (hd : k.data[i]? = some d) :
    (i, if d.iterative then tile i else {}) ∈ tileEntries k ds tile := by
  by_cases hi : d.iterative = true
  · rw [if_pos hi]
    exact List.mem_append_left _ (List.mem_map_of_mem ((ho.mem_iff i).mpr ⟨d, hd, hi⟩))
  · rw [if_neg hi]
    refine List.mem_append_right _ (List.mem_map.mpr ⟨d, List.mem_filter.mpr ?_, ?_⟩)
    · exact ⟨List.mem_of_getElem? hd, by simpa [DataItem.isControl] using hi⟩
    · rw [h.data_id hd]

/-- Every item gets its tile, had no cycle, and changes in nothing else. -/
theorem data_of_revise_tileEntries {k' : Kernel}
    (hrun : revise recordTile (tileEntries k ds tile) k = (.ok (), k')) {i : DataId} {d : DataItem}
    (hd : k.data[i]? = some d) :
    d.note.stage = .unscheduled ∧ k'.data[i]? = some (tiled d (if d.iterative then tile i else {})) := by
  obtain ⟨k₁, item', -, hkey, hstep, hend⟩ :=
    revises_recordTile.result hrun (nodup_tileEntries h ho) (mem_tileEntries h ho hd)
  obtain ⟨-, item, hget, hs, rfl⟩ := recordTile_eq_ok hstep
  obtain rfl : d = item := Option.some.inj (hd.symm.trans (hkey.symm.trans hget))
  exact ⟨hs, hend⟩

end Entries

section Pass

variable {k : Kernel} {order : List NodeId} (h : k.WellFormed) (hv : k.Valid) (ht : Topological k order)

include h hv ht

/-- The pass records tiles that follow from their neighbours. -/
theorem analyzeTiles_eq_revise : ∃ ds tile, DataOrder k ds ∧
    (∀ i ∈ ds, ∀ d, k.data[i]? = some d → TileOf k tile d (tile i)) ∧
      analyzeTiles order k = revise recordTile (tileEntries k ds tile) k := by
  obtain ⟨ds, hds, ho⟩ := dataOrder_eq_ok ht h hv
  obtain ⟨tile, htile, heq⟩ := tiles_eq_ok h ho hv
  refine ⟨ds, tile, ho, heq, ?_⟩
  simp only [analyzeTiles, hds, htile, bind, Except.bind, pure, Except.pure,
    handOut_of_nodup tile ho.nodup]
  rfl

/-- A completed pass found no cycle on any item and changed nothing but the tiles; that of a
control scalar is empty. -/
theorem analyzeTiles_data {k' : Kernel} (hrun : analyzeTiles order k = (.ok (), k')) {i : DataId}
    {d : DataItem} (hd : k.data[i]? = some d) : d.note.stage = .unscheduled ∧
      k'.data[i]? = some (tiled d (tileAt k' i)) ∧ (d.iterative = false → tileAt k' i = {}) := by
  obtain ⟨ds, tile, ho, -, heq⟩ := analyzeTiles_eq_revise h hv ht
  obtain ⟨hs, hget⟩ := data_of_revise_tileEntries h ho (heq ▸ hrun) hd
  have htile : tileAt k' i = if d.iterative then tile i else {} := by
    rw [tileAt, hget]
    rfl
  refine ⟨hs, htile ▸ hget, fun hi => ?_⟩
  rw [htile, hi]
  rfl

/-- The tiles that a completed pass recorded solve their equations. -/
theorem analyzeTiles_tiled {k' : Kernel} (hrun : analyzeTiles order k = (.ok (), k')) :
    Keeps DataItem.reset k k' ∧ Tiled k' := by
  obtain ⟨ds, tile, ho, heq, hrevise⟩ := analyzeTiles_eq_revise h hv ht
  rw [hrevise] at hrun
  have hkeeps := revises_recordTile.respects.keeps hrun
  refine ⟨hkeeps, h.of_sameGraph hkeeps.sameGraph, hv.of_sameGraph hkeeps.sameGraph,
    ⟨ds, ho.of_keeps hkeeps⟩, ?_⟩
  have htileAt : ∀ x ∈ ds, tileAt k' x = tile x := by
    intro x hx
    obtain ⟨d, hd, hi⟩ := (ho.mem_iff x).mp hx
    rw [tileAt, (data_of_revise_tileEntries h ho hrun hd).2, hi]
    rfl
  intro i d' hd' hiter
  obtain ⟨d, hd, hreset⟩ := hkeeps.exists_item hd'
  have hi : d.iterative = true := (congrArg (·.iterative) hreset).symm.trans hiter
  obtain rfl := Option.some.inj (hd'.symm.trans (data_of_revise_tileEntries h ho hrun hd).2)
  have hmem : i ∈ ds := (ho.mem_iff i).mpr ⟨d, hd, hi⟩
  refine ⟨tile i, by rw [hi]; rfl,
    TileOf.transfer hkeeps hreset ((heq i hmem d hd).congr h hd fun x hx => ?_)⟩
  rcases hx with hx | hx
  · exact (htileAt x (ho.mem_of_feeds h hv hx).2).symm
  · exact (htileAt x (ho.mem_of_feeds h hv hx).1).symm

/-- On an unscheduled, validated kernel the pass completes, and the recorded tiles
solve their equations. -/
theorem analyzeTiles_eq_ok (hs : ∀ d ∈ k.data, d.note.stage = .unscheduled) :
    ∃ k', analyzeTiles order k = (.ok (), k') ∧ Keeps DataItem.reset k k' ∧ Tiled k' := by
  obtain ⟨ds, tile, ho, -, hrevise⟩ := analyzeTiles_eq_revise h hv ht
  obtain ⟨k', hk'⟩ := revises_recordTile.complete (nodup_tileEntries h ho) (k := k)
    fun entry hentry k₁ _ hkey => by
      obtain ⟨item, hget⟩ := exists_item_of_mem_tileEntries h ho hentry
      exact recordTile_of_unscheduled (hkey.trans hget) (hs item (List.mem_of_getElem? hget))
  exact ⟨k', hrevise.trans hk', analyzeTiles_tiled h hv ht (hrevise.trans hk')⟩

/-- The pass completes exactly if no item has a cycle yet. -/
theorem analyzeTiles_completes_iff : (∃ k', analyzeTiles order k = (.ok (), k')) ↔
    ∀ d ∈ k.data, d.note.stage = .unscheduled := by
  constructor
  · rintro ⟨k', hrun⟩ d hd
    obtain ⟨i, hi⟩ := List.mem_iff_getElem?.mp hd
    exact (analyzeTiles_data h hv ht hrun hi).1
  · intro hs
    obtain ⟨k', hrun, -⟩ := analyzeTiles_eq_ok h hv ht hs
    exact ⟨k', hrun⟩

end Pass

/-- The pass assigns no cycle. -/
theorem analyzeTiles_unscheduled {k k' : Kernel} {order : List NodeId}
    (hs : ∀ d ∈ k.data, d.note.stage = .unscheduled) (hrun : analyzeTiles order k = (.ok (), k')) :
    ∀ d ∈ k'.data, d.note.stage = .unscheduled := by
  have hstep : Respects recordTile fun d => d.note.stage := by
    intro k entry d item' h
    obtain ⟨-, item, hitem, -, rfl⟩ := recordTile_eq_ok h
    exact ⟨item, hitem, rfl⟩
  dsimp only [analyzeTiles] at hrun
  split at hrun
  · cases hrun
  · intro d' hd'
    obtain ⟨i, hi⟩ := List.mem_iff_getElem?.mp hd'
    obtain ⟨d, hd, hstage⟩ := (hstep.keeps hrun).exists_item hi
    exact hstage.trans (hs d (List.mem_of_getElem? hd))

end StencilTiling.Analysis
