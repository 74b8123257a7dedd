import ByteDB.TupleKeys

/-!
# The files of large values, and their cache

A file is written once, under a new name. Its content stands behind the header
of a compressed block, also if it is not compressed. When files that nothing
refers to are removed, it is given which of them are too young and which can be
removed. The cache holds values up to a number of bytes, the oldest ones leave
first.
-/

set_option autoImplicit false

namespace ByteDB.Blobs
open LittleEndian Reader Assoc ByteDB.Tuple List

def blobMagic : Bytes := [66, 68, 66, 76]

def blobVersion : UInt8 := 1

structure BlobRef where
  uuid : Uuid
  size : ℕ
  compressed : Bool
  algo : UInt8

structure Names (N : Type) where
  blobPath : Uuid → N
  parse : N → Option Uuid
  parse_blobPath : ∀ uuid, parse (blobPath uuid) = some uuid

section
variable {J N : Type} [DecidableEq N] (lib : Libraries J) (names : Names N)

def encoded (data : Bytes) : Bytes :=
  match compress lib data with
  | some enc => enc
  | none => block 5 data.length data

def store (dir : Map N Bytes) (uuid : Uuid) (data : Bytes) :
    Except String (BlobRef × Map N Bytes) :=
  if data.length ≤ 65536 then
    .error ("data too small for external blob: "++toString data.length++" bytes")
  else if names.blobPath uuid ∈ dir then .error "File exists"
  else
    let enc := encoded lib data
    .ok (⟨uuid,data.length,enc.headD 0 ≠ 5,enc.headD 0⟩,
      dir.insert (names.blobPath uuid) (blobMagic++(blobVersion::enc)))

def loadFile : Reader Bytes := do
  let magic ← readExact 4
  check (magic = blobMagic) "invalid blob magic"
  let version ← readExact 1
  check (version = [blobVersion]) "unsupported blob version"
  let header ← readExact 13
  let body ← readExact (readLe (header.drop 9))
  let algo := header.headD 0
  if algo = 12 ∨ algo = 13 then
    match decompress lib (header++body) with
    | some data => pure data
    | none => throw "decompression failed"
  else pure body

def loadBytes (dir : Map N Bytes) (uuid : Uuid) : Except String Bytes :=
  match dir.lookup (names.blobPath uuid) with
  | some file => (loadFile lib).run' file
  | none => .error "No such file or directory"

def sweepUnreferenced (dir : Map N Bytes) (live : List Uuid) (young removed : N → Bool) :
    Map N Bytes :=
  retain dir fun name file =>
    match names.parse name with
    | some uuid => if uuid ∈ live ∨ young name ∨ !removed name then some file else none
    | none => some file

inductive Action (N : Type) where
  | store (uuid : Uuid) (data : Bytes)
  | sweep (live : List Uuid) (young removed : N → Bool)

def act (dir : Map N Bytes) : Action N → Map N Bytes
  | .store uuid data => ((store lib names dir uuid data).map Prod.snd).toOption.getD dir
  | .sweep live young removed => sweepUnreferenced names dir live young removed

end

section
variable {J : Type} {lib : Libraries J} {data buf : Bytes} {tag : UInt8} {size : ℕ}

lemma reads_file (hbuf : buf.length < 2^32)
    (hpacked : tag = 12 ∨ tag = 13 → decompress lib (block tag size buf) = some data)
    (hplain : ¬ (tag = 12 ∨ tag = 13) → buf = data) :
    Reads (loadFile lib) (blobMagic++(blobVersion::block tag size buf)) data := by
  have hblock : block tag size buf = (tag::(le 8 size++le 4 buf.length))++buf := by
    simp [block]
  have hheader : Reads (readExact 13) _ _ := reads_exact (tag::(le 8 size++le 4 buf.length))
  have hsize : readLe ((tag::(le 8 size++le 4 buf.length)).drop 9) = buf.length := by
    rw [drop_succ_cons, drop_le, read_le 4 _ hbuf]
  rw [hblock] at hpacked ⊢
  refine (reads_exact blobMagic).bind (.check rfl ((reads_exact [blobVersion]).bind (.check rfl ?_)))
  refine hheader.bind (Reads.last (by rw [hsize]; exact reads_exact buf) ?_)
  rw [headD_cons]
  by_cases htag : tag = 12 ∨ tag = 13
  · rw [if_pos htag, hpacked htag]
    exact reads_pure data
  · rw [if_neg htag, hplain htag]
    exact reads_pure data

lemma load_encoded (hlib : lib.Faithful) (hlen : data.length < 2^32) :
    Reads (loadFile lib) (blobMagic++(blobVersion::encoded lib data)) data := by
  rw [encoded]
  split
  · next hc =>
    obtain ⟨tag,buf,rfl,hmade,hlt⟩ := compress_made hc
    refine reads_file (hlt.trans hlen) (fun _ => decompress_block hlib hmade hlt hlen) fun h => ?_
    exact absurd (hmade.imp And.left And.left) h
  · exact reads_file hlen (fun h => absurd h (by decide)) fun _ => rfl

variable {N : Type} [DecidableEq N] {names : Names N} {uuid : Uuid} {file : Bytes}

lemma act_keeps {dir : Map N Bytes} (h : dir.lookup (names.blobPath uuid) = some file) {a : Action N}
    (ha : ∀ live young removed, a = .sweep live young removed → uuid ∈ live) :
    (act lib names dir a).lookup (names.blobPath uuid) = some file := by
  cases a with
  | store other data =>
    rw [act, store]
    split_ifs with hsmall hexists
    · exact h
    · exact h
    · have hne : names.blobPath uuid ≠ names.blobPath other := by
        intro he
        rw [← he, ← AList.lookup_isSome, h] at hexists
        exact hexists rfl
      exact (AList.lookup_insert_ne hne).trans h
  | sweep live young removed =>
    rw [act, sweepUnreferenced, lookup_retain, h, Option.bind_some, names.parse_blobPath]
    exact if_pos (.inl (ha live young removed rfl))

/-- A large value is read back from its file, whatever else is stored and
removed, as long as it counts as referred to. -/
theorem blob_loaded (hlib : lib.Faithful) (dir : Map N Bytes) (hnew : names.blobPath uuid ∉ dir)
    (hlow : 65536 < data.length) (hhigh : data.length < 2^32) :
    ∃ ref stored, store lib names dir uuid data = .ok (ref,stored) ∧ ref.uuid = uuid ∧
      ∀ actions : List (Action N),
        (∀ live young removed, .sweep live young removed ∈ actions → uuid ∈ live) →
          loadBytes lib names (actions.foldl (act lib names) stored) ref.uuid = .ok data := by
  refine ⟨_,_,by rw [store, if_neg (by omega), if_neg hnew],rfl,fun actions hlive => ?_⟩
  have hfile : (actions.foldl (act lib names) (dir.insert (names.blobPath uuid)
      (blobMagic++(blobVersion::encoded lib data)))).lookup (names.blobPath uuid) =
        some (blobMagic++(blobVersion::encoded lib data)) := by
    induction actions using reverseRecOn with
    | nil => exact AList.lookup_insert _
    | append_singleton actions a ih =>
      rw [foldl_concat]
      refine act_keeps (ih fun live young removed h => ?_) fun live young removed h => ?_
      · exact hlive live young removed (mem_append_left _ h)
      · exact hlive live young removed (by simp [h])
  have hread := load_encoded hlib hhigh []
  rw [append_nil] at hread
  rw [loadBytes, hfile]
  show (loadFile lib).run' _ = _
  rw [StateT.run', hread]
  rfl

end

def plainNames : Names Uuid := ⟨id,some,fun _ => rfl⟩

def zeroUuid : Uuid := ⟨replicate 16 0,rfl⟩

theorem swept_beside_loaded : ∃ ref stored, store sampleLibraries plainNames ∅ zeroUuid
      (replicate 65537 0) = .ok (ref,stored) ∧ loadBytes sampleLibraries plainNames
        (sweepUnreferenced plainNames stored [zeroUuid] (fun _ => false) fun _ => true) ref.uuid =
          .ok (replicate 65537 0) := by
  have hnew : plainNames.blobPath zeroUuid ∉ (∅ : Map Uuid Bytes) := AList.notMem_empty _
  have hlen : (replicate 65537 (0 : UInt8)).length = 65537 := length_replicate ..
  obtain ⟨ref,stored,hstore,-,hload⟩ := blob_loaded sampleLibraries_faithful ∅ hnew
    (show 65536 < _ by rw [hlen]; decide) (by omega)
  refine ⟨ref,stored,hstore,hload [.sweep [zeroUuid] (fun _ => false) fun _ => true] ?_⟩
  intro live young removed h
  cases mem_singleton.1 h
  exact mem_singleton_self _

structure BlobCache where
  map : Map Uuid Bytes
  order : List Uuid
  bytes : ℕ
  budget : ℕ

namespace BlobCache
variable (c : BlobCache)

def new (budget : ℕ) : BlobCache := ⟨∅,[],0,budget⟩

def get (uuid : Uuid) : Option Bytes := c.map.lookup uuid

/-- The loop of `put`. -/
def evict (budget : ℕ) (map : Map Uuid Bytes) (bytes : ℕ) : List Uuid → BlobCache
  | [] => ⟨map,[],bytes,budget⟩
  | old::order =>
    if budget < bytes then
      evict budget (map.erase old) (bytes-((map.lookup old).elim 0 length)) order
    else ⟨map,old::order,bytes,budget⟩

def refuses (uuid : Uuid) (val : Bytes) : Bool :=
  c.budget = 0 ∨ c.budget < val.length ∨ uuid ∈ c.map

def put (uuid : Uuid) (val : Bytes) : BlobCache :=
  if c.refuses uuid val then c
  else evict c.budget (c.map.insert uuid val) (c.bytes+val.length) (c.order++[uuid])

inductive Call where
  | put (uuid : Uuid) (val : Bytes)
  | get (uuid : Uuid)

/-- An accepted value, or none for an id that leaves the queue. -/
abbrev Event := Uuid × Option Bytes

/-- The cache with all events so far, the last one first. -/
def call (s : BlobCache × List Event) : Call → BlobCache × List Event
  | .put uuid val =>
    let c := s.1.put uuid val
    (c,if s.1.refuses uuid val then s.2 else
      ((s.1.order++[uuid]).filter (· ∉ c.order)).map (·,none)++(uuid,some val)::s.2)
  | .get _ => s

def total (map : Map Uuid Bytes) : ℕ := (map.entries.map (·.2.length)).sum

lemma total_insert {map : Map Uuid Bytes} {uuid : Uuid} (h : uuid ∉ map) (val : Bytes) :
    total (map.insert uuid val) = total map+val.length := by
  rw [total, AList.insert_of_notMem h, map_cons, sum_cons, Nat.add_comm, total]

lemma total_erase {map : Map Uuid Bytes} {uuid : Uuid} {val : Bytes}
    (h : map.lookup uuid = some val) : total map = total (map.erase uuid)+val.length := by
  have hmem : uuid ∈ map.entries.keys := (mem_keys_iff map uuid).2 ⟨val,h⟩
  obtain ⟨v,l,r,hl,hentries,herase⟩ := exists_of_kerase hmem
  have hv : map.lookup uuid = some v := AList.mem_lookup_iff.2 (by rw [hentries]; simp)
  obtain rfl : v = val := Option.some.inj (hv.symm.trans h)
  have hkerase : (map.erase uuid).entries = l++r := herase
  rw [total, total, hentries, hkerase]
  simp
  omega

/-- The count and the queue belong to the values. -/
structure Sound (c : BlobCache) : Prop where
  bytes : c.bytes = total c.map
  nodup : c.order.Nodup
  order : ∀ uuid, uuid ∈ c.order ↔ uuid ∈ c.map

lemma evict_sound {budget bytes : ℕ} {map : Map Uuid Bytes} {order : List Uuid}
    (h : Sound ⟨map,order,bytes,budget⟩) : Sound (evict budget map bytes order) ∧
      (evict budget map bytes order).bytes ≤ budget ∧
      (evict budget map bytes order).budget = budget ∧
      ∀ uuid ∈ (evict budget map bytes order).order,
        (evict budget map bytes order).map.lookup uuid = map.lookup uuid := by
  induction order generalizing map bytes with
  | nil =>
    have hempty : map.entries = [] := eq_nil_iff_forall_not_mem.2 fun e he =>
      not_mem_nil ((h.order e.1).2 (mem_keys_of_mem he))
    have hbytes : bytes = 0 := h.bytes.trans (by rw [total, hempty]; rfl)
    exact ⟨h,hbytes.trans_le (Nat.zero_le _),rfl,nofun⟩
  | cons old order ih =>
    rw [evict]
    split_ifs with hover
    · obtain ⟨hold,hrest⟩ := nodup_cons.1 h.nodup
      obtain ⟨val,hval⟩ := (mem_keys_iff map old).1 ((h.order old).1 mem_cons_self)
      have hsound : Sound ⟨map.erase old,order,bytes-(map.lookup old).elim 0 length,budget⟩ := by
        refine ⟨?_,hrest,fun uuid => ?_⟩
        · rw [hval]
          exact Nat.sub_eq_of_eq_add (h.bytes.trans (total_erase hval))
        · have := h.order uuid
          rw [AList.mem_erase]
          grind
      obtain ⟨hs,hle,hbudget,hlook⟩ := ih hsound
      refine ⟨hs,hle,hbudget,fun uuid hu => ?_⟩
      obtain ⟨v,hv⟩ := (mem_keys_iff _ uuid).1 ((hs.order uuid).1 hu)
      rw [hlook uuid hu] at hv ⊢
      exact hv.trans (lookup_erase_cases hv).2.symm
    · exact ⟨h,not_lt.1 hover,rfl,fun _ _ => rfl⟩

/-- The cache is within its budget and has what was put last and has not left. -/
structure Cached (limit : ℕ) (s : BlobCache × List Event) : Prop where
  sound : s.1.Sound
  budget : s.1.budget = limit
  bytes : s.1.bytes ≤ limit
  get : ∀ uuid, s.1.get uuid = (s.2.find? (·.1 = uuid)).bind Prod.snd

lemma find_evicted (ids : List Uuid) (log : List Event) (uuid : Uuid) :
    (ids.map (fun id => ((id,none) : Event))++log).find? (·.1 = uuid) =
      if uuid ∈ ids then some (uuid,none) else log.find? (·.1 = uuid) := by
  induction ids with
  | nil => rfl
  | cons id ids ih =>
    rw [map_cons, cons_append, find?_cons, ih]
    by_cases h : id = uuid
    · simp [h]
    · simp [h, Ne.symm h]

lemma call_cached {limit : ℕ} {s : BlobCache × List Event} (h : Cached limit s) (a : Call) :
    Cached limit (call s a) := by
  cases a with
  | get => exact h
  | put uuid val =>
    rw [call, put]
    by_cases hrefused : s.1.refuses uuid val
    · simpa only [if_pos hrefused] using h
    · simp only [if_neg hrefused]
      have hnew : uuid ∉ s.1.map := by
        rw [refuses, decide_eq_true_iff] at hrefused
        exact fun hm => hrefused (.inr (.inr hm))
      have hsound : Sound ⟨s.1.map.insert uuid val,s.1.order++[uuid],s.1.bytes+val.length,
          s.1.budget⟩ := by
        refine ⟨?_,?_,fun x => ?_⟩
        · rw [total_insert hnew, h.sound.bytes]
        · exact h.sound.nodup.append (nodup_singleton _)
            (disjoint_singleton.2 fun hm => hnew ((h.sound.order uuid).1 hm))
        · rw [mem_append, mem_singleton, AList.mem_insert, h.sound.order, or_comm]
      obtain ⟨hs,hle,hbudget,hlook⟩ := evict_sound hsound
      refine ⟨hs,hbudget.trans h.budget,hle.trans h.budget.le,fun x => ?_⟩
      generalize evict _ _ _ _ = c at hs hlook
      rw [find_evicted]
      have hget := h.get x
      by_cases hx : x ∈ c.order
      · rw [if_neg (by simp [hx]), find?_cons, BlobCache.get, hlook x hx, lookup_insert_eq]
        by_cases hu : x = uuid
        · simp [hu]
        · rw [if_neg hu, decide_eq_false (Ne.symm hu)]
          exact hget
      · rw [BlobCache.get, AList.lookup_eq_none.2 fun hm => hx ((hs.order x).2 hm)]
        split_ifs with hleft
        · rfl
        · have hout : x ∉ s.1.order ∧ x ≠ uuid := by simpa [hx] using hleft
          rw [find?_cons, decide_eq_false hout.2.symm]
          refine Eq.trans ?_ hget
          exact (AList.lookup_eq_none.2 fun hm => hout.1 ((h.sound.order x).2 hm)).symm

end BlobCache

end ByteDB.Blobs
