import Moon.Hash.ContentHash
import Moon.Lib.Fuel
import Mathlib.Data.UInt

/-!
# Batching blobs: `create_batches`

`crates/cache-storage/src/helpers.rs`.  Blobs are fetched from a storage backend in batches.

* With a request limit (`max_size > 0`), `partition_into_batches` sorts the blobs by size,
  largest first, and places each in the first batch that is not streamed and still has room for
  it, or in a new one; a blob whose size and `BUFFER` reach the limit is streamed alone.
* Without one, `chunk_into_batches` cuts the blobs, in order, into chunks of a common size chosen
  so that there are about `CHUNK_TARGET_SIZE` blobs a chunk and at most `BLOCKING_THREAD_COUNT`
  chunks.

Sizes are `usize`, so `UInt64` here: in a release build an addition wraps around.  That is not
an idle remark: `retrieve_blobs_batched` gets a blob's size as `digest.size as usize`, and a digest
from a remote cache may say anything.  A size of `-1` becomes `2^64 - 1`, and with `BUFFER` added it
is `299` (`itemSize_digestSize_neg_one`): the largest blob there is goes into a shared batch.

What holds whatever the sizes: the batches hold every item once (`createBatches_perm`); with a
limit, a streamed batch holds one item whose size reaches it, and the others hold items that each
stay under it and record the sum of their sizes, which is within it — all in `usize` arithmetic
(`partitionIntoBatches_spec`).  Without a limit there are at most `BLOCKING_THREAD_COUNT` chunks,
none empty, that hold the items in order (`chunkIntoBatches_spec`).  Either way the batches are
numbered `1..=total` (`createBatches_index`).
-/

set_option autoImplicit false

namespace Moon

/-- `BUFFER`: 256 bytes of hash and digest, and 44 of metadata, counted for each blob. -/
def buffer : UInt64 := 300

/-- `BLOCKING_THREAD_COUNT`, the size of the blocking pool. -/
def blockingThreadCount : ℕ := 512

/-- `CHUNK_TARGET_SIZE`: the number of blobs a chunk aims at. -/
def chunkTargetSize : ℕ := 100

/-- `usize::div_ceil`. -/
def divCeil (a b : ℕ) : ℕ := a / b + if a % b > 0 then 1 else 0

/-- The quotient rounded up, times the divisor, covers the dividend. -/
theorem le_divCeil_mul {a b : ℕ} (hb : 0 < b) : a ≤ divCeil a b * b := by
  have hdiv := Nat.div_add_mod a b
  have hmod := Nat.mod_lt a hb
  unfold divCeil
  split
  · rw [Nat.add_mul, Nat.mul_comm (a / b)]
    omega
  · -- `b` divides `a`
    rw [Nat.add_zero, Nat.mul_comm (a / b)]
    omega

theorem divCeil_pos {a b : ℕ} (ha : 0 < a) : 0 < divCeil a b := by
  unfold divCeil
  split
  · exact Nat.succ_pos _
  · have hdiv := Nat.div_add_mod a b
    -- no remainder: `b` divides `a`, so the quotient is positive
    have hq : a / b ≠ 0 := fun hq ↦ by rw [hq, Nat.mul_zero] at hdiv; omega
    exact Nat.pos_of_ne_zero hq

/-- `Batch`: its items, their recorded size, whether it is streamed, and its place among the
batches. -/
structure Batch (T : Type) where
  items : List T
  size : UInt64
  stream : Bool
  index : ℕ
  total : ℕ

section Update

variable {α : Type} (p : α → Bool) (f : α → α)

/-- `iter_mut().find(p)`, then an update of what it found: the first element `p` accepts,
replaced by its image under `f`; `none` when `p` accepts none. -/
def updateFirst : List α → Option (List α)
  | [] => none
  | a :: as => if p a then some (f a :: as) else (updateFirst as).map (a :: ·)

variable {p f}

/-- The update replaces one element, which `p` accepts, by its image, and leaves the others. -/
theorem updateFirst_eq_some : ∀ {l l' : List α}, updateFirst p f l = some l' →
    ∃ pre a post, l = pre ++ a :: post ∧ p a = true ∧ l' = pre ++ f a :: post
  | [], _, h => by cases h
  | a :: as, l', h => by
    rw [updateFirst] at h
    split at h
    · next hp =>
      cases h
      exact ⟨[], a, as, rfl, hp, rfl⟩
    · obtain ⟨as', has, rfl⟩ := Option.map_eq_some_iff.1 h
      obtain ⟨pre, b, post, rfl, hb, rfl⟩ := updateFirst_eq_some has
      exact ⟨a :: pre, b, post, rfl, hb, rfl⟩

end Update

/-- The batches numbered from one, each told how many there are: the last loop of both
functions. -/
def numberBatches {T : Type} (batches : List (Batch T)) : List (Batch T) :=
  batches.mapIdx fun index batch ↦ { batch with index := index + 1, total := batches.length }

/-! ## With a limit: `partition_into_batches` -/

section Partition

variable {T : Type} (maxSize : UInt64) (getSize : T → UInt64)

/-- The size a blob takes in a batch: its own and `BUFFER`. -/
def itemSize (item : T) : UInt64 := getSize item + buffer

/-- One blob of `partition_into_batches`: streamed alone when it reaches the limit, otherwise
added to the first batch that is not streamed and has room, or to a new batch. -/
def placeItem (batches : List (Batch T)) (item : T) : List (Batch T) :=
  let size := itemSize getSize item
  if size ≥ maxSize then batches ++ [⟨[item], size, true, 0, 0⟩]
  else
    match updateFirst (fun batch ↦ !batch.stream && batch.size + size ≤ maxSize)
        (fun batch ↦ { batch with size := batch.size + size, items := batch.items ++ [item] })
        batches with
    | some batches => batches
    | none => batches ++ [⟨[item], size, false, 0, 0⟩]

/-- `partition_into_batches`.  `sort_unstable_by_key` with `Reverse(get_size)` orders the blobs
largest first; blobs of one size may come in any order, and every result below holds for the loop
over any order (`placeItem_packed`, `foldl_placeItem_perm`). -/
def partitionIntoBatches (items : List T) : List (Batch T) :=
  numberBatches ((items.mergeSort fun a b ↦ getSize b ≤ getSize a).foldl (placeItem maxSize getSize) [])

/-- What a batch of `partition_into_batches` is: a streamed batch is one blob that reaches the
limit; any other holds blobs that each stay under it, and records the sum of their sizes, which is
within it.  Sizes and sums are `usize`. -/
structure Packed (batch : Batch T) : Prop where
  items_ne_nil : batch.items ≠ []
  streamed : batch.stream = true →
    ∃ item, batch.items = [item] ∧ batch.size = itemSize getSize item ∧ maxSize ≤ itemSize getSize item
  shared : batch.stream = false →
    batch.size = (batch.items.map (itemSize getSize)).sum ∧ batch.size ≤ maxSize ∧
      ∀ item ∈ batch.items, itemSize getSize item < maxSize

variable {maxSize getSize}

/-- One blob adds itself to the items of the batches, and nothing else. -/
theorem placeItem_perm (batches : List (Batch T)) (item : T) :
    ((placeItem maxSize getSize batches item).flatMap Batch.items).Perm
      (batches.flatMap Batch.items ++ [item]) := by
  unfold placeItem
  dsimp only
  split
  · simp
  · split
    · next batches' hupdate =>
      obtain ⟨pre, b, post, rfl, -, rfl⟩ := updateFirst_eq_some hupdate
      simp only [List.flatMap_append, List.flatMap_cons, List.append_assoc]
      -- the item joins `b`, in the middle, where the other side has it last
      exact .append_left _ (.append_left _ List.perm_append_comm)
    · simp

/-- **One blob keeps every batch packed.** -/
theorem placeItem_packed {batches : List (Batch T)} (h : ∀ b ∈ batches, Packed maxSize getSize b)
    (item : T) : ∀ b ∈ placeItem maxSize getSize batches item, Packed maxSize getSize b := by
  unfold placeItem
  dsimp only
  split
  · next hstream =>
    -- the blob reaches the limit: a new streamed batch
    simp only [List.mem_append, List.mem_singleton]
    rintro b (hb | rfl)
    · exact h b hb
    · exact { items_ne_nil := by simp, streamed := fun _ ↦ ⟨item, rfl, rfl, hstream⟩,
                shared := nofun }
  · next hshared =>
    have hlt : itemSize getSize item < maxSize := UInt64.not_le.1 hshared
    split
    · next batches' hupdate =>
      obtain ⟨pre, a, post, rfl, hroom, rfl⟩ := updateFirst_eq_some hupdate
      simp only [Bool.and_eq_true, Bool.not_eq_eq_eq_not, Bool.not_true, decide_eq_true_eq]
        at hroom
      have ha := h a (by simp)
      obtain ⟨hsum, -, hitems⟩ := ha.shared hroom.1
      simp only [List.mem_append, List.mem_cons]
      rintro b (hb | rfl | hb)
      · exact h b (by simp [hb])
      · -- the first batch with room takes the blob, and its size the blob's
        refine { items_ne_nil := by simp, streamed := fun h ↦ by simp [hroom.1] at h,
                 shared := fun _ ↦ ⟨?_, hroom.2, ?_⟩ }
        · simp [hsum, List.sum_append]
        · simp only [List.mem_append, List.mem_singleton]
          rintro x (hx | rfl)
          exacts [hitems x hx, hlt]
      · exact h b (by simp [hb])
    · simp only [List.mem_append, List.mem_singleton]
      rintro b (hb | rfl)
      · exact h b hb
      · refine { items_ne_nil := by simp, streamed := nofun,
                 shared := fun _ ↦ ⟨by simp, UInt64.le_of_lt hlt, ?_⟩ }
        simpa using hlt

/-- The loop of `partition_into_batches`, over the blobs in any order. -/
theorem foldl_placeItem_perm (items : List T) (batches : List (Batch T)) :
    ((items.foldl (placeItem maxSize getSize) batches).flatMap Batch.items).Perm
      (batches.flatMap Batch.items ++ items) := by
  induction items generalizing batches with
  | nil => simp
  | cons item items ih =>
    rw [List.foldl_cons]
    refine (ih _).trans ?_
    rw [← List.singleton_append, ← List.append_assoc]
    exact (placeItem_perm batches item).append_right _

theorem foldl_placeItem_packed (items : List T) {batches : List (Batch T)}
    (h : ∀ b ∈ batches, Packed maxSize getSize b) :
    ∀ b ∈ items.foldl (placeItem maxSize getSize) batches, Packed maxSize getSize b := by
  induction items generalizing batches with
  | nil => exact h
  | cons item items ih => exact ih (placeItem_packed h item)

/-- A blob under the limit, first of all, opens a shared batch. -/
theorem placeItem_nil_of_lt {item : T} (hlt : itemSize getSize item < maxSize) :
    placeItem maxSize getSize [] item = [⟨[item], itemSize getSize item, false, 0, 0⟩] := by
  simp [placeItem, UInt64.not_le.2 hlt, updateFirst]

end Partition

/-! ## Numbering -/

section Numbering

variable {T : Type}

theorem length_numberBatches (batches : List (Batch T)) :
    (numberBatches batches).length = batches.length :=
  List.length_mapIdx

/-- **The batches are numbered `1..=total`**, and `total` is their number. -/
theorem numberBatches_getElem (batches : List (Batch T)) (i : ℕ)
    (hi : i < (numberBatches batches).length) :
    (numberBatches batches)[i].index = i + 1 ∧
      (numberBatches batches)[i].total = (numberBatches batches).length := by
  simp [numberBatches, List.getElem_mapIdx]

/-- Numbering keeps what a batch holds. -/
theorem map_items_numberBatches (batches : List (Batch T)) :
    (numberBatches batches).map Batch.items = batches.map Batch.items := by
  refine List.ext_getElem (by simp [length_numberBatches]) fun i h₁ h₂ ↦ ?_
  simp [numberBatches, List.getElem_mapIdx]

theorem flatMap_items_numberBatches (batches : List (Batch T)) :
    (numberBatches batches).flatMap Batch.items = batches.flatMap Batch.items := by
  rw [List.flatMap_def, List.flatMap_def, map_items_numberBatches]

/-- A numbered batch is a batch of the loop, with its index and total set. -/
theorem exists_of_mem_numberBatches {batches : List (Batch T)} {b : Batch T}
    (hb : b ∈ numberBatches batches) :
    ∃ b' ∈ batches, b.items = b'.items ∧ b.size = b'.size ∧ b.stream = b'.stream := by
  obtain ⟨i, hi, rfl⟩ := List.mem_mapIdx.1 hb
  exact ⟨batches[i], List.getElem_mem hi, rfl, rfl, rfl⟩

end Numbering

/-! ## Without a limit: `chunk_into_batches` -/

section Chunk

variable {T : Type} (getSize : T → UInt64)

/-- One round of `chunk_into_batches`' loop: `drain` the first `min(chunk_size, items.len())`
items into a new batch, its size their sum.  The state is the items left and the batches so
far. -/
def chunkStep (chunkSize : ℕ) (s : List T × List (Batch T)) : List T × List (Batch T) :=
  let take := min chunkSize s.1.length
  let chunk := s.1.take take
  (s.1.drop take, s.2 ++ [⟨chunk, (chunk.map getSize).sum, false, 0, 0⟩])

/-- `while !items.is_empty() { … }`, run on fuel; the body never fails. -/
def chunkLoop (chunkSize fuel : ℕ) (items : List T) : Option (Outcome Empty (List T × List (Batch T))) :=
  Fuel.whileLoop (fun s ↦ !s.1.isEmpty) (fun s ↦ .ok (chunkStep getSize chunkSize s)) fuel (items, [])

/-- `chunk_into_batches`.  The loop gets one round more than there are items, which is enough
(`chunkLoop_ne_none`); the empty result for a loop that did not stop is never reached. -/
def chunkIntoBatches (items : List T) : List (Batch T) :=
  let len := items.length
  if len = 0 then []
  else
    let batchCount := min (divCeil len chunkTargetSize) blockingThreadCount
    let chunkSize := divCeil len batchCount
    match chunkLoop getSize chunkSize (len + 1) items with
    | some (.ok (_, batches)) => numberBatches batches
    | _ => []

/-- What a batch of `chunk_into_batches` is: some items, not streamed, with the sum of their sizes
recorded. -/
structure Chunk (batch : Batch T) : Prop where
  items_ne_nil : batch.items ≠ []
  not_stream : batch.stream = false
  size_eq : batch.size = (batch.items.map getSize).sum

/-- The invariant of the loop over `items` with chunks of `chunkSize`: the batches and the items
left are the items, in order; every batch is a chunk; and the batches and the items left cover
no more than the items, but for the last chunk, which may be short. -/
structure ChunkInv (items : List T) (chunkSize : ℕ) (s : List T × List (Batch T)) : Prop where
  cover : s.2.flatMap Batch.items ++ s.1 = items
  chunks : ∀ b ∈ s.2, Chunk getSize b
  count_lt : s.2.length * chunkSize + s.1.length < items.length + chunkSize
  count_le : s.1 ≠ [] → s.2.length * chunkSize + s.1.length ≤ items.length

variable {getSize}

theorem chunkInv_init (items : List T) {chunkSize : ℕ} (hpos : 0 < chunkSize) :
    ChunkInv getSize items chunkSize (items, []) where
  cover := by simp
  chunks := by simp
  count_lt := by simp; omega
  count_le := by simp

/-- **One round keeps the invariant.**  A full chunk leaves the count as it was; a short one is
the last, and it ends within one chunk of the items. -/
theorem chunkInv_step {items : List T} {chunkSize : ℕ} (hpos : 0 < chunkSize)
    {s : List T × List (Batch T)} (h : ChunkInv getSize items chunkSize s) (hne : s.1 ≠ []) :
    ChunkInv getSize items chunkSize (chunkStep getSize chunkSize s) where
  cover := by simpa [chunkStep, List.flatMap_append] using h.cover
  chunks := by
    simp only [chunkStep, List.mem_append, List.mem_singleton]
    rintro b (hb | rfl)
    · exact h.chunks b hb
    · exact ⟨by simp [List.take_eq_nil_iff, hne]; omega, rfl, rfl⟩
  count_lt := by
    have hle := h.count_le hne
    have hlen := List.length_pos_iff.2 hne
    simp only [chunkStep, List.length_append, List.length_drop, List.length_singleton, Nat.add_mul,
      Nat.one_mul]
    omega
  count_le := by
    have hle := h.count_le hne
    simp only [chunkStep, ne_eq, List.drop_eq_nil_iff, List.length_append, List.length_drop,
      List.length_singleton, Nat.add_mul, Nat.one_mul]
    omega

theorem chunkLoop_ne_none {chunkSize : ℕ} (hpos : 0 < chunkSize) (items : List T) :
    chunkLoop getSize chunkSize (items.length + 1) items ≠ none := by
  refine Fuel.whileLoop_ne_none (fun s ↦ s.1.length) ?_ _ _ (Nat.lt_succ_self _)
  intro s s' hcond hbody
  cases hbody
  simp only [Bool.not_eq_eq_eq_not, Bool.not_true, List.isEmpty_eq_false_iff] at hcond
  have hlen : 0 < s.1.length := List.length_pos_iff.2 hcond
  simp only [chunkStep, List.length_drop]
  omega

/-- **The loop cuts the items into chunks**, in order, and makes no more than one chunk a
`chunkSize` of items, rounded up. -/
theorem chunkLoop_spec {chunkSize fuel : ℕ} (hpos : 0 < chunkSize) {items rest : List T}
    {batches : List (Batch T)} (h : chunkLoop getSize chunkSize fuel items = some (.ok (rest, batches))) :
    batches.flatMap Batch.items = items ∧ (∀ b ∈ batches, Chunk getSize b) ∧
      batches.length * chunkSize < items.length + chunkSize := by
  obtain ⟨hinv, hcond⟩ := Fuel.whileLoop_inv (ChunkInv getSize items chunkSize)
    (fun s s' hs hcond hbody ↦ by
      cases hbody
      simp only [Bool.not_eq_eq_eq_not, Bool.not_true, List.isEmpty_eq_false_iff] at hcond
      exact chunkInv_step hpos hs hcond)
    fuel _ _ (chunkInv_init items hpos) h
  -- the loop stopped with no items left
  simp only [Bool.not_eq_eq_eq_not, Bool.not_false, List.isEmpty_iff] at hcond
  have hcover := hinv.cover
  have hcount := hinv.count_lt
  simp only [hcond, List.append_nil, List.length_nil, Nat.add_zero] at hcover hcount
  exact ⟨hcover, hinv.chunks, hcount⟩

/-- `batch_count`: positive, and at most `BLOCKING_THREAD_COUNT`. -/
theorem batchCount_spec {len : ℕ} (hlen : 0 < len) :
    0 < min (divCeil len chunkTargetSize) blockingThreadCount ∧
      min (divCeil len chunkTargetSize) blockingThreadCount ≤ blockingThreadCount := by
  have := divCeil_pos (b := chunkTargetSize) hlen
  exact ⟨Nat.lt_min.2 ⟨this, by decide⟩, Nat.min_le_right _ _⟩

/-- **`chunk_into_batches` cuts the items into at most `BLOCKING_THREAD_COUNT` chunks**, in order,
none empty. -/
theorem chunkIntoBatches_spec (items : List T) :
    (chunkIntoBatches getSize items).flatMap Batch.items = items ∧
      (chunkIntoBatches getSize items).length ≤ blockingThreadCount ∧
      ∀ b ∈ chunkIntoBatches getSize items, Chunk getSize b := by
  unfold chunkIntoBatches
  dsimp only
  split
  · next hlen => simp [List.length_eq_zero_iff.1 hlen]
  · next hlen =>
    obtain ⟨hcount, hcap⟩ := batchCount_spec (Nat.pos_of_ne_zero hlen)
    set batchCount := min (divCeil items.length chunkTargetSize) blockingThreadCount
    have hsize : 0 < divCeil items.length batchCount := divCeil_pos (Nat.pos_of_ne_zero hlen)
    have hcover : items.length ≤ divCeil items.length batchCount * batchCount :=
      le_divCeil_mul hcount
    split
    · next rest batches hloop =>
      obtain ⟨hitems, hchunks, hlt⟩ := chunkLoop_spec hsize hloop
      refine ⟨by rw [flatMap_items_numberBatches, hitems], ?_, fun b hb ↦ ?_⟩
      · -- `batches.length * chunkSize < (batchCount + 1) * chunkSize`
        rw [length_numberBatches]
        have : batches.length * divCeil items.length batchCount <
            (batchCount + 1) * divCeil items.length batchCount := by
          rw [Nat.add_mul, Nat.one_mul, Nat.mul_comm batchCount]
          omega
        have := Nat.lt_of_mul_lt_mul_right this
        omega
      · obtain ⟨b', hb', hitems', hsize', hstream'⟩ := exists_of_mem_numberBatches hb
        obtain ⟨h₁, h₂, h₃⟩ := hchunks b' hb'
        exact ⟨hitems' ▸ h₁, hstream' ▸ h₂, hitems' ▸ hsize' ▸ h₃⟩
    · -- the loop stops, and its body never fails
      next hnot =>
      obtain ⟨r, hr⟩ := Option.ne_none_iff_exists'.1 (chunkLoop_ne_none hsize items)
      obtain ⟨s, rfl⟩ := Fuel.whileLoop_eq_ok_of_total (fun s ↦ ⟨_, rfl⟩) _ _ r hr
      exact absurd hr (hnot s.1 s.2)

end Chunk

section Spec

variable {T : Type} {maxSize : UInt64} {getSize : T → UInt64}

theorem Packed.of_fields {b b' : Batch T} (h : Packed maxSize getSize b') (hitems : b.items = b'.items)
    (hsize : b.size = b'.size) (hstream : b.stream = b'.stream) : Packed maxSize getSize b := by
  obtain ⟨h₁, h₂, h₃⟩ := h
  exact ⟨hitems ▸ h₁, hitems ▸ hsize ▸ hstream ▸ h₂, hitems ▸ hsize ▸ hstream ▸ h₃⟩

/-- **`partition_into_batches` is a packing**: the batches hold the blobs, each once, and are
packed; `usize` arithmetic throughout. -/
theorem partitionIntoBatches_spec (items : List T) :
    ((partitionIntoBatches maxSize getSize items).flatMap Batch.items).Perm items ∧
      ∀ b ∈ partitionIntoBatches maxSize getSize items, Packed maxSize getSize b := by
  unfold partitionIntoBatches
  constructor
  · rw [flatMap_items_numberBatches]
    refine (foldl_placeItem_perm _ []).trans ?_
    simpa using List.mergeSort_perm _ _
  · intro b hb
    obtain ⟨b', hb', hitems, hsize, hstream⟩ := exists_of_mem_numberBatches hb
    exact (foldl_placeItem_packed _ (by simp) b' hb').of_fields hitems hsize hstream

end Spec

/-! ## `create_batches` -/

section Create

variable {T : Type} (maxSize : UInt64) (getSize : T → UInt64)

/-- `create_batches`: packed under a request limit, chunked without one. -/
def createBatches (items : List T) : List (Batch T) :=
  if maxSize > 0 then partitionIntoBatches maxSize getSize items else chunkIntoBatches getSize items

variable {maxSize getSize}

theorem exists_createBatches_eq_numberBatches (items : List T) :
    ∃ batches, createBatches maxSize getSize items = numberBatches batches := by
  unfold createBatches partitionIntoBatches chunkIntoBatches
  split
  · exact ⟨_, rfl⟩
  · dsimp only
    split
    · exact ⟨[], rfl⟩
    · split
      · exact ⟨_, rfl⟩
      · exact ⟨[], rfl⟩

/-- **No blob is lost or taken twice**, with a limit or without. -/
theorem createBatches_perm (items : List T) :
    ((createBatches maxSize getSize items).flatMap Batch.items).Perm items := by
  unfold createBatches
  split
  · exact (partitionIntoBatches_spec items).1
  · rw [(chunkIntoBatches_spec items).1]

/-- **The batches are numbered `1..=total`**, with a limit or without. -/
theorem createBatches_index (items : List T) (i : ℕ)
    (hi : i < (createBatches maxSize getSize items).length) :
    (createBatches maxSize getSize items)[i].index = i + 1 ∧
      (createBatches maxSize getSize items)[i].total = (createBatches maxSize getSize items).length := by
  obtain ⟨batches, hbatches⟩ : ∃ batches, createBatches maxSize getSize items = numberBatches batches :=
    exists_createBatches_eq_numberBatches items
  simp only [hbatches] at hi ⊢
  exact numberBatches_getElem batches i hi

end Create

/-! ## Sizes read from digests -/

/-- The size `retrieve_blobs_batched` batches a blob by: `digest.size as usize`, the bits of the
`i64` read as a `usize`. -/
def digestSize (digest : Digest) : UInt64 := UInt64.ofInt digest.size

/-- A size of `-1` is `usize::MAX`, and `BUFFER` more wraps around to `299`. -/
theorem itemSize_digestSize_neg_one (hash : ContentHash) :
    itemSize digestSize ⟨hash, -1⟩ = 299 := by
  show UInt64.ofInt (-1) + 300 = 299
  decide

theorem negative_digest_size_wraps_into_a_shared_batch :
    (∀ (hash : ContentHash) (maxSize : UInt64), 299 < maxSize →
      createBatches maxSize digestSize [⟨hash, -1⟩] = [⟨[⟨hash, -1⟩], 299, false, 1, 1⟩]) ∧
    ∀ (hash : ContentHash) (maxSize : UInt64),
      maxSize.toNat < (digestSize ⟨hash, -1⟩).toNat + buffer.toNat := by
  refine ⟨fun hash maxSize hlt ↦ ?_, fun hash maxSize ↦ ?_⟩
  · have hpos : maxSize > 0 := UInt64.lt_of_le_of_lt UInt64.zero_le hlt
    rw [createBatches, if_pos hpos, partitionIntoBatches, List.mergeSort_singleton,
      List.foldl_cons, List.foldl_nil, placeItem_nil_of_lt (itemSize_digestSize_neg_one hash ▸ hlt),
      itemSize_digestSize_neg_one]
    rfl
  · -- the size the digest claims, and `BUFFER` more, is past every `usize`
    have hmax := maxSize.toNat_lt
    have hsize : (digestSize ⟨hash, -1⟩).toNat = 2 ^ 64 - 1 := by
      show (UInt64.ofInt (-1)).toNat = _
      decide
    rw [hsize]
    simp only [buffer, UInt64.reduceToNat]
    omega

end Moon
