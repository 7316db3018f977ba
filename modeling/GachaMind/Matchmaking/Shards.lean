import GachaMind.Js.Number
import GachaMind.Js.Url
import GachaMind.Lib.Least
import GachaMind.GameSession.RoomSystem
import GachaMind.Redis

/-!
# The shard of a new room (apps/matchmaking/src/index.ts)

`listSessionLoads` reads the hashes under the keys that SCAN returns, in any order and some of
them again; `pickShardForNewRoom` takes the first of the loads, sorted one way or the other.
-/

namespace GachaMind
open GachaMind.Js GachaMind.Shared Least
open GachaMind.GameSession (plainRuntime)

/-! ### The session loads -/

/-- The hash under a key of the pattern `session:*`, without fields where there is none. -/
structure SessionHash where
  shard : Option JsString := none
  host : Option JsString := none
  port : Option JsString := none
  rooms : Option JsString := none
  connections : Option JsString := none
  deriving DecidableEq

structure ScannedLoad where
  shard : ShardId
  host : JsString
  port : JsNumber
  rooms : JsNumber
  connections : JsNumber
  deriving DecidableEq

/-- The answer to one SCAN: the next cursor and a batch of keys. -/
structure ScanReply where
  next : JsString
  batch : List JsString

/-- The keys that the loop of `listSessionLoads` collects, `none` while it goes on. -/
def scanKeys : List ScanReply → Option (List JsString)
  | [] => none
  | reply :: replies =>
    if reply.next = utf16 "0" then some reply.batch
    else (scanKeys replies).map fun keys => reply.batch ++ keys

section
variable [Runtime]

def numberOf (text : Option JsString) : JsNumber := text.elim .nan Runtime.stringToNumber

/-- What a hash adds to the loads, `none` where it is skipped. -/
def SessionHash.load? (hash : SessionHash) : Option ScannedLoad :=
  if truthy hash.shard && truthy hash.host && truthy hash.port then
    some {
      shard := hash.shard.getD []
      host := hash.host.getD []
      port := numberOf hash.port
      rooms := numberOf hash.rooms
      connections := numberOf hash.connections }
  else none

def listSessionLoads (hashes : JsString → SessionHash) (replies : List ScanReply) :
    Option (List ScannedLoad) :=
  (scanKeys replies).map fun keys => keys.filterMap fun key => (hashes key).load?

end

/-! ### The choice -/

/-- `a.localeCompare(b)`. -/
class Collation where
  localeCompare : JsString → JsString → ℤ

section
variable [Collation]
open Collation

def byFullest (a b : ScannedLoad) : JsNumber :=
  (b.connections.sub a.connections).or (.finite (localeCompare a.shard b.shard))

def byEmptiest (a b : ScannedLoad) : JsNumber :=
  (a.connections.sub b.connections).or (.finite (localeCompare a.shard b.shard))

/-- `limit` is `SHARD_CONNECTION_LIMIT`. -/
def pickShard (limit : JsNumber) (loads : List ScannedLoad) : Option ShardId :=
  if loads = [] then none
  else
    let underLimit := loads.filter fun l => l.connections.lt limit
    if underLimit ≠ [] then (sortBy byFullest underLimit).head?.map ScannedLoad.shard
    else (sortBy byEmptiest loads).head?.map ScannedLoad.shard

/-- The outer `none` is a scan that has not ended. -/
def pickShardForNewRoom [Runtime] (limit : JsNumber) (hashes : JsString → SessionHash)
    (replies : List ScanReply) : Option (Option ShardId) :=
  (listSessionLoads hashes replies).map (pickShard limit)

/-! ### The order of the loads -/

/-- `localeCompare` is a total order on these names. -/
structure LocaleOrder (names : Set JsString) : Prop where
  eq_zero : ∀ a ∈ names, ∀ b ∈ names, localeCompare a b = 0 ↔ a = b
  swap : ∀ a ∈ names, ∀ b ∈ names, localeCompare a b < 0 ↔ 0 < localeCompare b a
  trans : ∀ a ∈ names, ∀ b ∈ names, ∀ c ∈ names,
    localeCompare a b ≤ 0 → localeCompare b c ≤ 0 → localeCompare a c ≤ 0

theorem LocaleOrder.subset {names names' : Set JsString} (h : LocaleOrder names')
    (hsub : names ⊆ names') : LocaleOrder names where
  eq_zero a ha b hb := h.eq_zero a (hsub ha) b (hsub hb)
  swap a ha b hb := h.swap a (hsub ha) b (hsub hb)
  trans a ha b hb c hc := h.trans a (hsub ha) b (hsub hb) c (hsub hc)

def NamedFirst (a b : ScannedLoad) : Prop := localeCompare a.shard b.shard ≤ 0

theorem namedFirst_ordered {loads : List ScannedLoad} {names : Set JsString}
    (h : LocaleOrder names) (hnames : ∀ l ∈ loads, l.shard ∈ names)
    (hdistinct : ∀ a ∈ loads, ∀ b ∈ loads, a.shard = b.shard → a = b) :
    OrderedOn NamedFirst loads where
  total a ha b hb := by
    by_contra hboth
    obtain ⟨hab, hba⟩ := not_or.mp hboth
    have hswap := (h.swap a.shard (hnames a ha) b.shard (hnames b hb)).mpr (not_le.mp hba)
    exact hab hswap.le
  trans a ha b hb c hc := h.trans a.shard (hnames a ha) b.shard (hnames b hb) c.shard (hnames c hc)
  antisymm a ha b hb hab hba := by
    apply hdistinct a ha b hb
    apply (h.eq_zero a.shard (hnames a ha) b.shard (hnames b hb)).mp
    have hnot := mt (h.swap a.shard (hnames a ha) b.shard (hnames b hb)).mp (not_lt.mpr hba)
    exact le_antisymm hab (not_lt.mp hnot)

/-- A shard by its record: its name and its connections. -/
structure PublishedShard where
  name : ShardId
  connections : ℚ

/-- The first shard has more connections, or as many and the smaller name. -/
def Fuller (a b : PublishedShard) : Prop :=
  b.connections < a.connections ∨ b.connections = a.connections ∧ localeCompare a.name b.name ≤ 0

/-- The first shard has fewer connections, or as many and the smaller name. -/
def Emptier (a b : PublishedShard) : Prop :=
  a.connections < b.connections ∨ a.connections = b.connections ∧ localeCompare a.name b.name ≤ 0

/-- What a load says of its shard. -/
structure ScannedLoad.Publishes (l : ScannedLoad) (s : PublishedShard) : Prop where
  name : l.shard = s.name
  connections : l.connections = .finite s.connections

def ScannedLoad.published (l : ScannedLoad) : PublishedShard :=
  ⟨l.shard, match l.connections with
    | .finite n => n
    | _ => 0⟩

omit [Collation] in
theorem ScannedLoad.Publishes.published {l : ScannedLoad} {s : PublishedShard}
    (h : l.Publishes s) : l.published = s := by
  rw [ScannedLoad.published, h.name, h.connections]

theorem byFullest_iff {a b : ScannedLoad} {s t : PublishedShard} (ha : a.Publishes s)
    (hb : b.Publishes t) : (byFullest a b).isPositive = false ↔ Fuller s t := by
  rw [byFullest, Fuller, ha.connections, hb.connections, ha.name, hb.name, sub_or_isPositive]

theorem byEmptiest_iff {a b : ScannedLoad} {s t : PublishedShard} (ha : a.Publishes s)
    (hb : b.Publishes t) : (byEmptiest a b).isPositive = false ↔ Emptier s t := by
  rw [byEmptiest, Emptier, ha.connections, hb.connections, ha.name, hb.name, sub_or_isPositive]

theorem fuller_iff (s t : PublishedShard) : Fuller s t ↔
    -s.connections < -t.connections ∨
      -s.connections = -t.connections ∧ localeCompare s.name t.name ≤ 0 := by
  rw [Fuller, neg_lt_neg_iff, neg_inj, eq_comm (a := s.connections)]

/-! ### What is picked -/

/-- The number of connections is below `SHARD_CONNECTION_LIMIT`. -/
def PublishedShard.Below (s : PublishedShard) (limit : JsNumber) : Prop :=
  (JsNumber.finite s.connections).lt limit = true

/-- The shard for a new room: the fullest one below the limit, and if all are at the limit or
above it, the emptiest one. -/
structure Chosen (limit : JsNumber) (shards : Set PublishedShard) (s : PublishedShard) :
    Prop where
  listed : s ∈ shards
  fullest : (∃ t ∈ shards, t.Below limit) →
    s.Below limit ∧ ∀ t ∈ shards, t.Below limit → Fuller s t
  emptiest : (∀ t ∈ shards, ¬t.Below limit) → ∀ t ∈ shards, Emptier s t

/-- The loads say just what the records do, and no two of them name the same shard. -/
structure LoadsOf (loads : List ScannedLoad) (shards : Set PublishedShard) : Prop where
  published : ∀ l ∈ loads, ∃ s ∈ shards, l.Publishes s
  loaded : ∀ s ∈ shards, ∃ l ∈ loads, l.Publishes s
  distinct : ∀ a ∈ loads, ∀ b ∈ loads, a.shard = b.shard → a = b

section
variable {limit : JsNumber} {loads : List ScannedLoad} {shards : Set PublishedShard}

omit [Collation] in
theorem ScannedLoad.Publishes.below {l : ScannedLoad} {s : PublishedShard} (h : l.Publishes s) :
    l.connections.lt limit = true ↔ s.Below limit := by
  rw [PublishedShard.Below, h.connections]

omit [Collation] in
/-- The part of the loads below the limit says what the shards below it do. -/
theorem LoadsOf.below (h : LoadsOf loads shards) :
    LoadsOf (loads.filter fun l => l.connections.lt limit) {s ∈ shards | s.Below limit} where
  published l hl := by
    obtain ⟨hmem, hlt⟩ := List.mem_filter.mp hl
    obtain ⟨s, hs, hpublishes⟩ := h.published l hmem
    exact ⟨s, ⟨hs, hpublishes.below.mp hlt⟩, hpublishes⟩
  loaded s hs := by
    obtain ⟨l, hl, hpublishes⟩ := h.loaded s hs.1
    exact ⟨l, List.mem_filter.mpr ⟨hl, hpublishes.below.mpr hs.2⟩, hpublishes⟩
  distinct a ha b hb := h.distinct a (List.mem_filter.mp ha).1 b (List.mem_filter.mp hb).1

omit [Collation] in
theorem LoadsOf.ne_nil_iff (h : LoadsOf loads shards) : loads ≠ [] ↔ ∃ s, s ∈ shards := by
  constructor
  · intro hne
    obtain ⟨l, hl⟩ := List.exists_mem_of_ne_nil _ hne
    obtain ⟨s, hs, -⟩ := h.published l hl
    exact ⟨s, hs⟩
  · rintro ⟨s, hs⟩ hnil
    obtain ⟨l, hl, -⟩ := h.loaded s hs
    rw [hnil] at hl
    cases hl

/-- A comparator that orders by a key and then by the name puts first the load of the shard that
comes before all others. -/
theorem head_sortBy_iff (h : LoadsOf loads shards)
    (horder : LocaleOrder (PublishedShard.name '' shards))
    {compareFn : ScannedLoad → ScannedLoad → JsNumber}
    {before : PublishedShard → PublishedShard → Prop} (key : PublishedShard → ℚ)
    (hcompare : ∀ {a b : ScannedLoad} {s t : PublishedShard}, a.Publishes s → b.Publishes t →
      ((compareFn a b).isPositive = false ↔ before s t))
    (hkey : ∀ s t, before s t ↔
      key s < key t ∨ key s = key t ∧ localeCompare s.name t.name ≤ 0) (shard : ShardId) :
    (sortBy compareFn loads).head?.map ScannedLoad.shard = some shard ↔
      ∃ s ∈ shards, s.name = shard ∧ ∀ t ∈ shards, before s t := by
  have hnamed : OrderedOn NamedFirst loads := by
    apply namedFirst_ordered horder
    case hnames =>
      intro l hl
      obtain ⟨s, hs, hpublishes⟩ := h.published l hl
      exact ⟨s, hs, hpublishes.name.symm⟩
    case hdistinct => exact h.distinct
  have hordered : OrderedOn (fun a b => (compareFn a b).isPositive = false) loads := by
    apply hnamed.lex fun l => key l.published
    intro a ha b hb
    obtain ⟨s, -, hs⟩ := h.published a ha
    obtain ⟨t, -, ht⟩ := h.published b hb
    rw [hcompare hs ht, hkey, NamedFirst, hs.published, ht.published, hs.name, ht.name]
  rw [Option.map_eq_some_iff, sortBy]
  constructor
  · rintro ⟨l, hhead, rfl⟩
    have hleast := (head_insertionSort_iff hordered).mp hhead
    obtain ⟨s, hs, hpublishes⟩ := h.published l hleast.mem
    refine ⟨s, hs, hpublishes.name.symm, ?_⟩
    intro t ht
    obtain ⟨m, hm, hother⟩ := h.loaded t ht
    exact (hcompare hpublishes hother).mp (hleast.le m hm)
  · rintro ⟨s, hs, rfl, hbefore⟩
    obtain ⟨l, hl, hpublishes⟩ := h.loaded s hs
    refine ⟨l, (head_insertionSort_iff hordered).mpr ⟨hl, ?_⟩, hpublishes.name⟩
    intro m hm
    obtain ⟨t, ht, hother⟩ := h.published m hm
    exact (hcompare hpublishes hother).mpr (hbefore t ht)

theorem pickShard_of_low (h : loads.filter (fun l => l.connections.lt limit) ≠ []) :
    pickShard limit loads =
      (sortBy byFullest (loads.filter fun l => l.connections.lt limit)).head?.map
        ScannedLoad.shard := by
  have hloads : loads ≠ [] := by
    rintro rfl
    exact h rfl
  rw [pickShard, if_neg hloads]
  exact if_pos h

theorem pickShard_of_full (h : loads.filter (fun l => l.connections.lt limit) = []) :
    pickShard limit loads = (sortBy byEmptiest loads).head?.map ScannedLoad.shard := by
  by_cases hloads : loads = []
  · rw [hloads]
    rfl
  · rw [pickShard, if_neg hloads]
    exact if_neg (not_not.mpr h)

theorem pickShard_eq_none : pickShard limit loads = none ↔ loads = [] := by
  by_cases hlow : loads.filter (fun l => l.connections.lt limit) = []
  · rw [pickShard_of_full hlow, Option.map_eq_none_iff, sortBy, head_insertionSort_eq_none]
  · rw [pickShard_of_low hlow, Option.map_eq_none_iff, sortBy, head_insertionSort_eq_none]
    refine iff_of_false hlow ?_
    rintro rfl
    exact hlow rfl

theorem chosen_of_full (hfull : ∀ t ∈ shards, ¬t.Below limit) {s : PublishedShard} :
    Chosen limit shards s ↔ s ∈ shards ∧ ∀ t ∈ shards, Emptier s t := by
  constructor
  · intro h
    exact ⟨h.listed, h.emptiest hfull⟩
  · rintro ⟨hmem, hemptier⟩
    apply Chosen.mk hmem
    case fullest =>
      rintro ⟨t, ht, hbelow⟩
      exact absurd hbelow (hfull t ht)
    case emptiest => exact fun _ => hemptier

theorem chosen_of_low (hlow : ∃ t ∈ shards, t.Below limit) {s : PublishedShard} :
    Chosen limit shards s ↔
      (s ∈ shards ∧ s.Below limit) ∧ ∀ t ∈ shards, t.Below limit → Fuller s t := by
  constructor
  · intro h
    obtain ⟨hbelow, hfuller⟩ := h.fullest hlow
    exact ⟨⟨h.listed, hbelow⟩, hfuller⟩
  · rintro ⟨⟨hmem, hbelow⟩, hfuller⟩
    apply Chosen.mk hmem
    case fullest => exact fun _ => ⟨hbelow, hfuller⟩
    case emptiest =>
      intro hfull
      exact absurd hbelow (hfull s hmem)

theorem pickShard_eq_some (h : LoadsOf loads shards)
    (horder : LocaleOrder (PublishedShard.name '' shards)) (shard : ShardId) :
    pickShard limit loads = some shard ↔ ∃ s, Chosen limit shards s ∧ s.name = shard := by
  have hlow : LoadsOf (loads.filter fun l => l.connections.lt limit)
      {s ∈ shards | s.Below limit} := h.below
  by_cases hnil : loads.filter (fun l => l.connections.lt limit) = []
  · have hfull : ∀ t ∈ shards, ¬t.Below limit := by
      intro t ht hbelow
      exact hlow.ne_nil_iff.mpr ⟨t, ht, hbelow⟩ hnil
    rw [pickShard_of_full hnil,
      head_sortBy_iff h horder PublishedShard.connections byEmptiest_iff fun _ _ => Iff.rfl]
    apply exists_congr
    intro s
    rw [chosen_of_full hfull]
    tauto
  · obtain ⟨t, ht, hbelow⟩ := hlow.ne_nil_iff.mp hnil
    have horder' : LocaleOrder (PublishedShard.name '' {s ∈ shards | s.Below limit}) :=
      horder.subset (Set.image_mono (Set.sep_subset _ _))
    rw [pickShard_of_low hnil,
      head_sortBy_iff hlow horder' (fun s => -s.connections) byFullest_iff fuller_iff]
    apply exists_congr
    intro s
    rw [chosen_of_low ⟨t, ht, hbelow⟩]
    simp only [Set.mem_ofPred_eq, and_imp]
    tauto

end

/-! ### Every order of the keys -/

/-- A record that names its shard and the address of it. -/
structure SessionHash.Valid (hash : SessionHash) : Prop where
  shard : ∃ text, hash.shard = some text ∧ text ≠ []
  host : ∃ text, hash.host = some text ∧ text ≠ []
  port : ∃ text, hash.port = some text ∧ text ≠ []

section
variable [Runtime]

def SessionHash.Connections (hash : SessionHash) (n : ℚ) : Prop :=
  ∃ text, hash.connections = some text ∧ Runtime.stringToNumber text = .finite n

/-- The shards of all valid records. -/
def publishedShards (hashes : JsString → SessionHash) : Set PublishedShard :=
  {s | ∃ key, (hashes key).Valid ∧ (hashes key).shard = some s.name ∧
    (hashes key).Connections s.connections}

/-- Every valid record has a number of connections, and no two name the same shard. -/
structure WellFormedRecords (hashes : JsString → SessionHash) : Prop where
  count : ∀ key, (hashes key).Valid → ∃ n, (hashes key).Connections n
  distinct : ∀ a b, (hashes a).Valid → (hashes b).Valid →
    (hashes a).shard = (hashes b).shard → a = b

/-- A scan that has ended. A key under which a valid record lies is returned at least once; other
keys may be returned as well. -/
structure FullScan (hashes : JsString → SessionHash) (replies : List ScanReply)
    (keys : List JsString) : Prop where
  ended : scanKeys replies = some keys
  complete : ∀ key, (hashes key).Valid → key ∈ keys

/-- Whatever the order and the repetitions of a scan. -/
structure PicksShard (limit : JsNumber) (hashes : JsString → SessionHash) : Prop where
  chosen : ∀ replies keys, FullScan hashes replies keys →
    ∃ picked, pickShardForNewRoom limit hashes replies = some picked ∧
      ∀ shard, picked = some shard ↔
        ∃ s, Chosen limit (publishedShards hashes) s ∧ s.name = shard
  null : ∀ replies keys, FullScan hashes replies keys →
    (pickShardForNewRoom limit hashes replies = some none ↔ ∀ key, ¬(hashes key).Valid)
  same : ∀ replies keys replies' keys', FullScan hashes replies keys →
    FullScan hashes replies' keys' →
      pickShardForNewRoom limit hashes replies = pickShardForNewRoom limit hashes replies'

omit [Collation] [Runtime] in
theorem truthy_iff {text : Option JsString} :
    truthy text = true ↔ ∃ value, text = some value ∧ value ≠ [] := by
  cases text with
  | none => simp [truthy]
  | some value => simp [truthy]

omit [Collation] in
theorem SessionHash.load?_eq_some {hash : SessionHash} {load : ScannedLoad} :
    hash.load? = some load ↔ hash.Valid ∧ load =
      ⟨hash.shard.getD [], hash.host.getD [], numberOf hash.port, numberOf hash.rooms,
        numberOf hash.connections⟩ := by
  have hvalid : (truthy hash.shard && truthy hash.host && truthy hash.port) = true ↔
      hash.Valid := by
    rw [Bool.and_eq_true, Bool.and_eq_true, truthy_iff, truthy_iff, truthy_iff]
    constructor
    · rintro ⟨⟨hshard, hhost⟩, hport⟩
      exact ⟨hshard, hhost, hport⟩
    · rintro ⟨hshard, hhost, hport⟩
      exact ⟨⟨hshard, hhost⟩, hport⟩
  rw [SessionHash.load?]
  split_ifs with h
  · rw [Option.some.injEq, and_iff_right (hvalid.mp h), eq_comm]
  · simp [mt hvalid.mpr h]

omit [Collation] in
theorem SessionHash.publishes {hash : SessionHash} {load : ScannedLoad}
    (h : hash.load? = some load) {s : PublishedShard} :
    load.Publishes s ↔ hash.shard = some s.name ∧ load.connections = .finite s.connections := by
  obtain ⟨hvalid, rfl⟩ := SessionHash.load?_eq_some.mp h
  obtain ⟨text, hshard, -⟩ := hvalid.shard
  constructor
  · rintro ⟨hname, hconnections⟩
    rw [← hname, hshard]
    exact ⟨rfl, hconnections⟩
  · rintro ⟨hname, hconnections⟩
    rw [hname]
    exact ⟨rfl, hconnections⟩

omit [Collation] in
theorem numberOf_connections {hash : SessionHash} {n : ℚ} :
    numberOf hash.connections = .finite n ↔ hash.Connections n := by
  rw [SessionHash.Connections, numberOf]
  cases hash.connections with
  | none => simp
  | some text => simp

omit [Collation] in
theorem WellFormedRecords.publishes {hashes : JsString → SessionHash}
    (h : WellFormedRecords hashes) {key : JsString} {load : ScannedLoad}
    (hload : (hashes key).load? = some load) :
    ∃ s ∈ publishedShards hashes, load.Publishes s := by
  obtain ⟨hvalid, -⟩ := SessionHash.load?_eq_some.mp hload
  obtain ⟨text, hshard, -⟩ := hvalid.shard
  obtain ⟨n, hn⟩ := h.count key hvalid
  obtain ⟨-, rfl⟩ := SessionHash.load?_eq_some.mp hload
  refine ⟨⟨text, n⟩, ⟨key, hvalid, hshard, hn⟩, ?_⟩
  exact (SessionHash.publishes hload).mpr ⟨hshard, numberOf_connections.mpr hn⟩

omit [Collation] in
/-- The loads that a scan reads are those of the valid records. -/
theorem FullScan.mem_loads {hashes : JsString → SessionHash} {replies : List ScanReply}
    {keys : List JsString} (hscan : FullScan hashes replies keys) {load : ScannedLoad} :
    load ∈ keys.filterMap (fun key => (hashes key).load?) ↔
      ∃ key, (hashes key).load? = some load := by
  rw [List.mem_filterMap]
  constructor
  · rintro ⟨key, -, hload⟩
    exact ⟨key, hload⟩
  · rintro ⟨key, hload⟩
    exact ⟨key, hscan.complete key (SessionHash.load?_eq_some.mp hload).1, hload⟩

omit [Collation] in
theorem FullScan.loadsOf {hashes : JsString → SessionHash} {replies : List ScanReply}
    {keys : List JsString} (hscan : FullScan hashes replies keys) (h : WellFormedRecords hashes) :
    LoadsOf (keys.filterMap fun key => (hashes key).load?) (publishedShards hashes) where
  published load hl := by
    obtain ⟨key, hload⟩ := hscan.mem_loads.mp hl
    exact h.publishes hload
  loaded := by
    rintro s ⟨key, hvalid, hshard, hn⟩
    have hload := SessionHash.load?_eq_some.mpr ⟨hvalid, rfl⟩
    refine ⟨_, hscan.mem_loads.mpr ⟨key, hload⟩, ?_⟩
    exact (SessionHash.publishes hload).mpr ⟨hshard, numberOf_connections.mpr hn⟩
  distinct a ha b hb hshard := by
    obtain ⟨key, hkey⟩ := hscan.mem_loads.mp ha
    obtain ⟨key', hkey'⟩ := hscan.mem_loads.mp hb
    obtain ⟨s, -, hs⟩ := h.publishes hkey
    obtain ⟨t, -, ht⟩ := h.publishes hkey'
    have hsame : (hashes key).shard = (hashes key').shard := by
      rw [((SessionHash.publishes hkey).mp hs).1, ((SessionHash.publishes hkey').mp ht).1,
        ← hs.name, ← ht.name, hshard]
    rw [h.distinct key key' (SessionHash.load?_eq_some.mp hkey).1
      (SessionHash.load?_eq_some.mp hkey').1 hsame, hkey'] at hkey
    exact (Option.some.inj hkey).symm

omit [Collation] in
theorem FullScan.loads_eq_nil {hashes : JsString → SessionHash} {replies : List ScanReply}
    {keys : List JsString} (hscan : FullScan hashes replies keys) :
    keys.filterMap (fun key => (hashes key).load?) = [] ↔ ∀ key, ¬(hashes key).Valid := by
  rw [List.eq_nil_iff_forall_not_mem]
  constructor
  · intro hnil key hvalid
    exact hnil _ (hscan.mem_loads.mpr ⟨key, SessionHash.load?_eq_some.mpr ⟨hvalid, rfl⟩⟩)
  · intro hinvalid load hl
    obtain ⟨key, hload⟩ := hscan.mem_loads.mp hl
    exact hinvalid key (SessionHash.load?_eq_some.mp hload).1

theorem picks_shard (limit : JsNumber) (hashes : JsString → SessionHash)
    (h : WellFormedRecords hashes)
    (horder : LocaleOrder (PublishedShard.name '' publishedShards hashes)) :
    PicksShard limit hashes := by
  have hpick : ∀ {replies : List ScanReply} {keys : List JsString}, FullScan hashes replies keys →
      ∃ picked, pickShardForNewRoom limit hashes replies = some picked ∧
        (picked = none ↔ ∀ key, ¬(hashes key).Valid) ∧ ∀ shard, picked = some shard ↔
          ∃ s, Chosen limit (publishedShards hashes) s ∧ s.name = shard := by
    intro replies keys hscan
    refine ⟨pickShard limit (keys.filterMap fun key => (hashes key).load?), ?_, ?_,
      pickShard_eq_some (hscan.loadsOf h) horder⟩
    · rw [pickShardForNewRoom, listSessionLoads, hscan.ended, Option.map_some, Option.map_some]
    · rw [pickShard_eq_none, hscan.loads_eq_nil]
  constructor
  case chosen =>
    intro replies keys hscan
    obtain ⟨picked, hpicked, -, hchosen⟩ := hpick hscan
    exact ⟨picked, hpicked, hchosen⟩
  case null =>
    intro replies keys hscan
    obtain ⟨picked, hpicked, hnull, -⟩ := hpick hscan
    rw [hpicked, Option.some.injEq, hnull]
  case same =>
    intro replies keys replies' keys' hscan hscan'
    obtain ⟨picked, hpicked, -, hchosen⟩ := hpick hscan
    obtain ⟨picked', hpicked', -, hchosen'⟩ := hpick hscan'
    have hsame : picked = picked' := by
      apply Option.ext
      intro shard
      rw [hchosen, hchosen']
    rw [hpicked, hpicked', hsame]

end

end

/-! ### Published loads (apps/game-session/src/occupancy.ts) -/

def SESSION_LOAD_KEY_PREFIX : JsString := utf16 "session:"

def sessionLoadKey (shard : ShardId) : JsString := SESSION_LOAD_KEY_PREFIX ++ shard

section
variable [Runtime]

/-- The fields that `HSET` writes of a load, numbers as their texts. -/
def sessionHash (load : SessionLoad) : SessionHash where
  shard := some load.shard
  host := some load.host
  port := some (Runtime.numberToString (.finite load.port))
  rooms := some (Runtime.numberToString (.finite load.rooms))
  connections := some (Runtime.numberToString (.finite load.connections))

/-- `HGETALL` of a key. -/
def Redis.hgetallSession (r : Redis) (key : JsString) : SessionHash :=
  match (key.dropPrefix? SESSION_LOAD_KEY_PREFIX).bind r.session with
  | some load => sessionHash load
  | none => {}

def ReadsCounts : Prop :=
  ∀ n : ℕ, Runtime.stringToNumber (Runtime.numberToString (.finite n)) = .finite n

omit [Runtime] in
theorem dropPrefix_sessionLoadKey (shard : ShardId) :
    (sessionLoadKey shard).dropPrefix? SESSION_LOAD_KEY_PREFIX = some shard :=
  List.dropPrefix?_eq_some_iff.mpr ⟨SESSION_LOAD_KEY_PREFIX, rfl, beq_self_eq_true _⟩

theorem hgetallSession_sessionLoadKey (r : Redis) (shard : ShardId) :
    r.hgetallSession (sessionLoadKey shard) = ((r.session shard).map sessionHash).getD {} := by
  rw [Redis.hgetallSession, dropPrefix_sessionLoadKey, Option.bind_some]
  cases r.session shard <;> rfl

/-- A shard publishes its load under its own name. -/
def Redis.SessionsNamed (r : Redis) : Prop :=
  ∀ shard load, r.session shard = some load → load.shard = shard

omit [Runtime] in
theorem sessionsNamed_publishSessionLoad {r : Redis} (h : r.SessionsNamed) (load : SessionLoad) :
    (r.publishSessionLoad load).SessionsNamed := by
  intro shard found hfound
  have hsession : (r.publishSessionLoad load).session shard =
      if shard = load.shard then some load else r.session shard := Function.update_apply ..
  rw [hsession] at hfound
  split_ifs at hfound with hshard
  · rw [hshard, ← Option.some.inj hfound]
  · exact h shard found hfound

/-- A valid record is one that some shard has published. -/
theorem valid_published {r : Redis} {key : JsString} (h : (r.hgetallSession key).Valid) :
    ∃ shard found, key = sessionLoadKey shard ∧ r.session shard = some found ∧
      r.hgetallSession key = sessionHash found := by
  cases hshard : key.dropPrefix? SESSION_LOAD_KEY_PREFIX with
  | none =>
    rw [Redis.hgetallSession, hshard] at h
    obtain ⟨text, htext, -⟩ := h.shard
    cases htext
  | some shard =>
    obtain ⟨front, rfl, hfront⟩ := List.dropPrefix?_eq_some_iff.mp hshard
    rw [eq_of_beq hfront] at h ⊢
    have hkey := hgetallSession_sessionLoadKey r shard
    rw [sessionLoadKey] at hkey
    rw [hkey] at h ⊢
    cases hfound : r.session shard with
    | none =>
      rw [hfound] at h
      obtain ⟨text, htext, -⟩ := h.shard
      cases htext
    | some found => exact ⟨shard, found, rfl, hfound, rfl⟩

theorem wellFormedRecords_published {r : Redis} (h : r.SessionsNamed) (hcounts : ReadsCounts) :
    WellFormedRecords r.hgetallSession := by
  constructor
  case count =>
    intro key hvalid
    obtain ⟨shard, found, -, -, hhash⟩ := valid_published hvalid
    rw [hhash]
    exact ⟨found.connections, _, rfl, hcounts found.connections⟩
  case distinct =>
    intro a b ha hb hshard
    obtain ⟨shard, found, rfl, hfound, hhash⟩ := valid_published ha
    obtain ⟨shard', found', rfl, hfound', hhash'⟩ := valid_published hb
    rw [hhash, hhash'] at hshard
    have hname : found.shard = found'.shard := Option.some.inj hshard
    rw [h shard found hfound, h shard' found' hfound'] at hname
    rw [hname]

end

/-! ### Three shards -/

def decimalText (n : ℕ) : JsString :=
  if n = 0 then utf16 "0" else ((Nat.digits 10 n).map fun d => (0x30 + d).toUInt16).reverse

theorem decimalValue_digits {digits : List ℕ} (h : ∀ d ∈ digits, d < 10) :
    decimalValue (digits.map fun d => (0x30 + d).toUInt16).reverse = Nat.ofDigits 10 digits := by
  induction digits with
  | nil => rfl
  | cons d digits ih =>
    obtain ⟨hd, hdigits⟩ := List.forall_mem_cons.mp h
    have hcode : (0x30 + d).toUInt16.toNat = 0x30 + d :=
      Nat.mod_eq_of_lt (by omega)
    have ih := ih hdigits
    rw [decimalValue] at ih
    rw [decimalValue, List.map_cons, List.reverse_cons, List.foldl_append, ih, Nat.ofDigits_cons]
    simp only [List.foldl_cons, List.foldl_nil, hcode]
    omega

theorem decimalValue_decimalText (n : ℕ) : decimalValue (decimalText n) = n := by
  rw [decimalText]
  split_ifs with h
  · rw [h]
    rfl
  · rw [decimalValue_digits fun d hd => Nat.digits_lt_base (by decide) hd, Nat.ofDigits_digits]

/-- The engine on natural numbers and their decimal texts. -/
@[reducible] def decimalRuntime : Runtime :=
  { plainRuntime with
    stringToNumber := fun s => .finite (decimalValue s)
    numberToString := fun n =>
      match n with
      | .finite q => decimalText q.num.toNat
      | _ => [] }

theorem decimalRuntime_readsCounts : @ReadsCounts decimalRuntime := by
  intro n
  have htext : decimalValue (decimalText (n : ℚ).num.toNat) = n := by
    rw [Rat.num_natCast, Int.toNat_natCast, decimalValue_decimalText]
  exact congrArg (fun m : ℕ => JsNumber.finite m) htext

/-- Names by their code units, a prefix first. -/
@[reducible] def codeUnitCollation : Collation where
  localeCompare a b :=
    if a.map UInt16.toNat < b.map UInt16.toNat then -1
    else if b.map UInt16.toNat < a.map UInt16.toNat then 1 else 0

theorem codeUnitCollation_nonpos (a b : JsString) :
    codeUnitCollation.localeCompare a b ≤ 0 ↔ a.map UInt16.toNat ≤ b.map UInt16.toNat := by
  rw [← not_lt (a := b.map UInt16.toNat)]
  show (if _ then _ else _) ≤ (0 : ℤ) ↔ _
  split_ifs with hlt hgt
  · exact iff_of_true (by decide) hlt.asymm
  · exact iff_of_false (by decide) (not_not.mpr hgt)
  · exact iff_of_true le_rfl hgt

theorem codeUnitCollation_swap (a b : JsString) :
    codeUnitCollation.localeCompare b a = -codeUnitCollation.localeCompare a b := by
  show (if _ then _ else _) = -(if _ then _ else _)
  split_ifs with hlt hgt
  · exact absurd hlt hgt.asymm
  all_goals rfl

theorem codeUnitCollation_localeOrder (names : Set JsString) :
    @LocaleOrder codeUnitCollation names := by
  apply @LocaleOrder.mk codeUnitCollation
  case eq_zero =>
    intro a _ b _
    have hswap := codeUnitCollation_swap a b
    have hab := codeUnitCollation_nonpos a b
    have hba := codeUnitCollation_nonpos b a
    constructor
    · intro hzero
      rw [hzero, neg_zero] at hswap
      have hle := le_antisymm (hab.mp hzero.le) (hba.mp hswap.le)
      exact List.map_injective_iff.mpr (fun x y => UInt16.toNat_inj.mp) hle
    · rintro rfl
      omega
  case swap =>
    intro a _ b _
    rw [codeUnitCollation_swap a b]
    omega
  case trans =>
    intro a _ b _ c _
    simp only [codeUnitCollation_nonpos]
    exact le_trans

def sampleRedis : Redis :=
  ((Redis.empty.publishSessionLoad ⟨utf16 "4002", utf16 "10.0.0.7", 4002, 1, 7⟩).publishSessionLoad
    ⟨utf16 "4001", utf16 "10.0.0.7", 4001, 2, 7⟩).publishSessionLoad
      ⟨utf16 "4003", utf16 "10.0.0.8", 4003, 9, 230⟩

/-- A scan in two batches, with one key twice and one under which nothing lies any more. -/
def sampleReplies : List ScanReply :=
  [⟨utf16 "17", [utf16 "session:4003", utf16 "session:4002", utf16 "session:4009"]⟩,
    ⟨utf16 "0", [utf16 "session:4001", utf16 "session:4003"]⟩]

def sampleKeys : List JsString :=
  [utf16 "session:4003", utf16 "session:4002", utf16 "session:4009", utf16 "session:4001",
    utf16 "session:4003"]

theorem fullScan_sample : @FullScan (@Redis.hgetallSession decimalRuntime sampleRedis)
    sampleReplies sampleKeys where
  ended := by decide
  complete key hvalid := by
    obtain ⟨shard, found, rfl, hfound, -⟩ := @valid_published decimalRuntime _ _ hvalid
    have hshard : shard = utf16 "4003" ∨ shard = utf16 "4001" ∨ shard = utf16 "4002" := by
      simp only [sampleRedis, Redis.publishSessionLoad, Function.update_apply] at hfound
      split_ifs at hfound with h₁ h₂ h₃
      · exact Or.inl h₁
      · exact Or.inr (Or.inl h₂)
      · exact Or.inr (Or.inr h₃)
      · cases hfound
    rcases hshard with rfl | rfl | rfl
    all_goals decide

/-- Two shards with seven connections each and one at the limit: the smaller of the two names. -/
theorem picks_shard_sample :
    @PicksShard codeUnitCollation decimalRuntime (.finite 200)
        (@Redis.hgetallSession decimalRuntime sampleRedis) ∧
      @FullScan (@Redis.hgetallSession decimalRuntime sampleRedis) sampleReplies sampleKeys ∧
      @pickShardForNewRoom codeUnitCollation decimalRuntime (.finite 200)
        (@Redis.hgetallSession decimalRuntime sampleRedis) sampleReplies =
          some (some (utf16 "4001")) := by
  have hempty : Redis.empty.SessionsNamed := by
    intro shard load hload
    cases hload
  have hnamed : sampleRedis.SessionsNamed :=
    sessionsNamed_publishSessionLoad (sessionsNamed_publishSessionLoad
      (sessionsNamed_publishSessionLoad hempty _) _) _
  have hpicks := @picks_shard codeUnitCollation decimalRuntime (.finite 200) _
    (@wellFormedRecords_published decimalRuntime _ hnamed decimalRuntime_readsCounts)
    (codeUnitCollation_localeOrder _)
  exact ⟨hpicks, fullScan_sample, by decide +kernel⟩

end GachaMind
