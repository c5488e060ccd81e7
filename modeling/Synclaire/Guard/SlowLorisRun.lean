import Synclaire.Guard.SlowLoris
import Synclaire.Lib.Transition

set_option relaxedAutoImplicit false
set_option autoImplicit false

/-!
# Runs of the bounded activity map

The activity map is a bounded map that forgets the address that was active least recently. Its
order queue gains an entry with every note and loses stale ones lazily; a sequence number tells
the live entry of an address from the stale ones.

## Main definitions

* `Synclaire.Noted` — an activity map beside the notes so far.
* `Synclaire.activities` — the transition system of notes and removals.
* `Synclaire.noteNumber`, `Synclaire.lastNoted` — the number and the time of the last note of an
  address.
* `Synclaire.BoundedActivityMap.WellFormed` — every tracked address has a live entry, and there are
  not too many.
* `Synclaire.Noted.Numbered` — the sequence numbers are the numbers of the notes.

## Main results

* `Synclaire.BoundedActivityMap.note_map_of_room`, `Synclaire.BoundedActivityMap.note_map_of_full`
  — what a note does to the map.
* `Synclaire.leastRecent_of_reach` — the map is a bounded least-recently-active map.

## Implementation notes

A sequence number is a `u64` that wraps around; the numbers are those of the notes as long as
there are fewer than `2 ^ 64` of them. That every tracked address has a live entry does not
depend on it.
-/

namespace Synclaire

open Transition

namespace BoundedActivityMap

/-! ## The queue -/

/-- The length from which the queue is compacted. -/
def orderBound (bound : ℕ) : ℕ := Max.max 16 (saturatingMul bound 4)

section Queue

variable {m : BoundedActivityMap} {addr a : SocketAddr} {now : Instant} {e : ActivityEntry}

/-- A queue entry is live if the map has its sequence number. -/
theorem isLive_iff {map : FMap SocketAddr ActivityEntry} {entry : SocketAddr × UInt64} :
    isLive map entry = true ↔ ∃ e, map.lookup entry.1 = some e ∧ e.seq = entry.2 := by
  unfold isLive
  cases map.lookup entry.1 with
  | none => simp
  | some e => simp

/-- Compacting the order keeps the entries. -/
@[simp] theorem maybeCompactOrder_map (m : BoundedActivityMap) :
    m.maybeCompactOrder.map = m.map := by
  unfold maybeCompactOrder compactOrder
  split_ifs <;> rfl

/-- Compacting the order keeps the bound. -/
@[simp] theorem maybeCompactOrder_max (m : BoundedActivityMap) :
    m.maybeCompactOrder.max = m.max := by
  unfold maybeCompactOrder compactOrder
  split_ifs <;> rfl

/-- Compacting the order keeps the next sequence number. -/
@[simp] theorem maybeCompactOrder_nextSeq (m : BoundedActivityMap) :
    m.maybeCompactOrder.nextSeq = m.nextSeq := by
  unfold maybeCompactOrder compactOrder
  split_ifs <;> rfl

/-- A compaction is made when the queue is too long, and keeps the live entries. -/
theorem maybeCompactOrder_order (m : BoundedActivityMap) :
    m.maybeCompactOrder.order =
      if m.order.length ≤ orderBound m.max then m.order else m.order.filter (isLive m.map) := by
  unfold maybeCompactOrder compactOrder orderBound
  rw [max_comm 16]
  by_cases hlen : m.order.length ≤ Max.max (saturatingMul m.max 4) 16
  · rw [if_neg (Nat.not_lt.mpr hlen), if_pos hlen]
  · rw [if_pos (Nat.not_le.mp hlen), if_neg hlen]

/-- A compaction only drops entries. -/
theorem maybeCompactOrder_sublist (m : BoundedActivityMap) :
    m.maybeCompactOrder.order.Sublist m.order := by
  rw [maybeCompactOrder_order]
  split_ifs
  · exact List.Sublist.refl _
  · exact List.filter_sublist

/-- A compaction keeps live entries. -/
theorem mem_maybeCompactOrder {entry : SocketAddr × UInt64} (hlive : isLive m.map entry = true)
    (hmem : entry ∈ m.order) : entry ∈ m.maybeCompactOrder.order := by
  rw [maybeCompactOrder_order]
  split_ifs
  · exact hmem
  · exact List.mem_filter.mpr ⟨hmem, hlive⟩

/-- **What the eviction loop does**: it empties a queue without live entries, and otherwise the
address of the first live one leaves with all entries up to it.

**Proof sketch.** Induction on the queue: a stale head joins the entries that are dropped. -/
theorem evictLoop_split (order : List (SocketAddr × UInt64)) (m : BoundedActivityMap) :
    ((∀ x ∈ order, ¬isLive m.map x) ∧ evictLoop order m = { m with order := [] }) ∨
      ∃ pre x rest, order = pre ++ x :: rest ∧ (∀ y ∈ pre, ¬isLive m.map y) ∧
        isLive m.map x ∧ evictLoop order m = { m with map := m.map.erase x.1, order := rest } := by
  induction order with
  | nil => exact .inl ⟨fun x hx => absurd hx List.not_mem_nil, rfl⟩
  | cons y rest ih =>
    unfold evictLoop
    by_cases hy : isLive m.map y = true
    · rw [if_pos hy]
      exact .inr ⟨[], y, rest, rfl, fun z hz => absurd hz List.not_mem_nil, hy, rfl⟩
    · rw [if_neg hy]
      rcases ih with ⟨hnone, heq⟩ | ⟨pre, x, post, rfl, hpre, hx, heq⟩
      · exact .inl ⟨List.forall_mem_cons.mpr ⟨hy, hnone⟩, heq⟩
      · exact .inr ⟨y :: pre, x, post, rfl, List.forall_mem_cons.mpr ⟨hy, hpre⟩, hx, heq⟩

/-- The map after the first part of a note: the address is noted, and its entry is queued. -/
def push (m : BoundedActivityMap) (addr : SocketAddr) (now : Instant) : BoundedActivityMap :=
  { m with
    nextSeq := m.nextSeq + 1
    map := m.map.insert addr ⟨now, m.nextSeq + 1⟩
    order := m.order ++ [(addr, m.nextSeq + 1)] }

/-- A note pushes, evicts when a new address makes the map too large, and may compact. -/
theorem note_eq (m : BoundedActivityMap) (addr : SocketAddr) (now : Instant) :
    m.note addr now =
      (if addr ∉ m.map ∧ m.max < (m.push addr now).map.keys.card then
        (m.push addr now).evictOldestLive
      else m.push addr now).maybeCompactOrder := by
  unfold note push
  simp only [decide_eq_true_eq]

/-- An eviction keeps the bound and the counter, drops entries and at most one address. -/
theorem evictOldestLive_shape (m : BoundedActivityMap) :
    m.evictOldestLive.max = m.max ∧ m.evictOldestLive.nextSeq = m.nextSeq ∧
      m.evictOldestLive.order.Sublist m.order ∧
      ∀ a e, m.evictOldestLive.map.lookup a = some e → m.map.lookup a = some e := by
  unfold evictOldestLive
  rcases evictLoop_split m.order m with ⟨-, heq⟩ | ⟨pre, x, rest, horder, -, -, heq⟩
  · rw [heq]
    exact ⟨rfl, rfl, List.nil_sublist _, fun _ _ h => h⟩
  · rw [heq]
    refine ⟨rfl, rfl, ?_, fun a e h => ?_⟩
    · rw [horder]
      exact (List.sublist_cons_self x rest).trans (List.sublist_append_right pre _)
    · rw [FMap.lookup_erase_eq_ite] at h
      split_ifs at h
      exact h

/-- A note keeps the bound, counts on, and gains no more than its own entry. -/
theorem note_shape (m : BoundedActivityMap) (addr : SocketAddr) (now : Instant) :
    (m.note addr now).max = m.max ∧ (m.note addr now).nextSeq = m.nextSeq + 1 ∧
      (m.note addr now).order.Sublist (m.order ++ [(addr, m.nextSeq + 1)]) ∧
      ∀ a e, (m.note addr now).map.lookup a = some e →
        (m.map.insert addr ⟨now, m.nextSeq + 1⟩).lookup a = some e := by
  rw [note_eq]
  simp only [maybeCompactOrder_max, maybeCompactOrder_nextSeq, maybeCompactOrder_map]
  split_ifs
  · obtain ⟨hmax, hseq, horder, hmap⟩ := evictOldestLive_shape (m.push addr now)
    exact ⟨hmax, hseq, (maybeCompactOrder_sublist _).trans horder, hmap⟩
  · exact ⟨rfl, rfl, maybeCompactOrder_sublist _, fun _ _ h => h⟩

/-- A removal keeps the bound and the counter, and gains nothing. -/
theorem remove_shape (m : BoundedActivityMap) (addr : SocketAddr) :
    (m.remove addr).max = m.max ∧ (m.remove addr).nextSeq = m.nextSeq ∧
      (m.remove addr).order.Sublist m.order ∧
      (m.remove addr).map = m.map.erase addr := by
  unfold remove
  exact ⟨maybeCompactOrder_max _, maybeCompactOrder_nextSeq _, maybeCompactOrder_sublist _,
    maybeCompactOrder_map _⟩

end Queue

/-! ## Live entries -/

/-- Every tracked address has a live entry, and there is room for one address and not more than
the bound. -/
structure WellFormed (m : BoundedActivityMap) : Prop where
  max_pos : 1 ≤ m.max
  queued : ∀ a e, m.map.lookup a = some e → (a, e.seq) ∈ m.order
  card : m.map.keys.card ≤ m.max

section WellFormed

variable {m : BoundedActivityMap} {addr : SocketAddr} {now : Instant}

/-- A new map is well-formed. -/
theorem wellFormed_new (bound : ℕ) : (new bound).WellFormed where
  max_pos := Nat.le_max_right _ _
  queued a e h := by simp [new] at h
  card := Nat.zero_le _

/-- A compaction keeps the live entries. -/
theorem WellFormed.maybeCompactOrder (h : m.WellFormed) : m.maybeCompactOrder.WellFormed where
  max_pos := by rw [maybeCompactOrder_max]; exact h.max_pos
  queued a e he := by
    rw [maybeCompactOrder_map] at he
    exact mem_maybeCompactOrder (isLive_iff.mpr ⟨e, he, rfl⟩) (h.queued a e he)
  card := by rw [maybeCompactOrder_map, maybeCompactOrder_max]; exact h.card

/-- A removal keeps the live entries of the other addresses. -/
theorem WellFormed.remove (h : m.WellFormed) (addr : SocketAddr) : (m.remove addr).WellFormed := by
  refine WellFormed.maybeCompactOrder ⟨h.max_pos, fun a e he => ?_, ?_⟩
  · rw [FMap.lookup_erase_eq_ite] at he
    split_ifs at he
    exact h.queued a e he
  · rw [Finmap.keys_erase]
    exact (Finset.card_le_card (Finset.erase_subset _ _)).trans h.card

/-- Every tracked address has a live entry after the push of a note. -/
theorem WellFormed.queued_push (h : m.WellFormed) (addr : SocketAddr) (now : Instant) :
    ∀ a e, (m.push addr now).map.lookup a = some e → (a, e.seq) ∈ (m.push addr now).order := by
  intro a e he
  unfold push at he ⊢
  dsimp only at he ⊢
  rw [FMap.lookup_insert_eq_ite] at he
  split_ifs at he with ha
  · obtain rfl := Option.some.inj he
    rw [ha]
    exact List.mem_append_right _ (List.mem_singleton.mpr rfl)
  · exact List.mem_append_left _ (h.queued a e he)

/-- **An eviction drops one address** if the tracked addresses have live entries and there is
one: that of the first live entry. -/
theorem evictOldestLive_cases
    (hqueued : ∀ a e, m.map.lookup a = some e → (a, e.seq) ∈ m.order) (hsome : ∃ a, a ∈ m.map) :
    ∃ pre x rest, m.order = pre ++ x :: rest ∧ (∀ y ∈ pre, ¬isLive m.map y) ∧ isLive m.map x ∧
      m.evictOldestLive = { m with map := m.map.erase x.1, order := rest } := by
  rcases evictLoop_split m.order m with ⟨hnone, -⟩ | hsplit
  · obtain ⟨a, ha⟩ := hsome
    obtain ⟨e, he⟩ := Finmap.mem_iff.mp ha
    exact absurd (isLive_iff.mpr ⟨e, he, rfl⟩) (hnone _ (hqueued a e he))
  · exact hsplit

/-- A note keeps the live entries and the bound.

**Proof sketch.** A note adds one address at most, and if that is one too many it evicts one. The
entries that an eviction drops are stale or that of the evicted address. -/
theorem WellFormed.note (h : m.WellFormed) (addr : SocketAddr) (now : Instant) :
    (m.note addr now).WellFormed := by
  have hqueued := h.queued_push addr now
  have hin : addr ∈ (m.push addr now).map := Finmap.mem_insert.mpr (.inl rfl)
  rw [note_eq]
  apply WellFormed.maybeCompactOrder
  split_ifs with hfull
  · obtain ⟨pre, x, rest, horder, hpre, hx, heq⟩ := evictOldestLive_cases hqueued ⟨addr, hin⟩
    have hxmem : x.1 ∈ (m.push addr now).map.keys := by
      obtain ⟨e, he, -⟩ := isLive_iff.mp hx
      exact Finmap.mem_keys.mpr (Finmap.mem_of_lookup_eq_some he)
    have hcard := FMap.keys_insert m.map addr ⟨now, m.nextSeq + 1⟩
    rw [heq]
    refine ⟨h.max_pos, fun a e he => ?_, ?_⟩
    · rw [FMap.lookup_erase_eq_ite] at he
      split_ifs at he with ha
      have hmem := hqueued a e he
      rw [horder, List.mem_append, List.mem_cons] at hmem
      rcases hmem with hmem | rfl | hmem
      · exact absurd (isLive_iff.mpr ⟨e, he, rfl⟩) (hpre _ hmem)
      · exact absurd rfl ha
      · exact hmem
    · rw [Finmap.keys_erase, Finset.card_erase_of_mem hxmem]
      have hle : (m.push addr now).map.keys.card ≤ m.map.keys.card + 1 := by
        unfold push
        rw [hcard]
        exact Finset.card_insert_le _ _
      have := h.card
      show _ - 1 ≤ m.max
      omega
  · refine ⟨h.max_pos, hqueued, ?_⟩
    by_cases hnew : addr ∈ m.map
    · unfold push
      rw [FMap.keys_insert_of_mem hnew]
      exact h.card
    · exact Nat.not_lt.mp fun hlt => hfull ⟨hnew, hlt⟩

/-- A note of a tracked address, or with room for another one, forgets nothing. -/
theorem note_map_of_room (hroom : addr ∈ m.map ∨ m.map.keys.card < m.max) :
    (m.note addr now).map = m.map.insert addr ⟨now, m.nextSeq + 1⟩ := by
  have hcond : ¬(addr ∉ m.map ∧ m.max < (m.push addr now).map.keys.card) := by
    rintro ⟨hnew, hlt⟩
    have hcard : (m.push addr now).map.keys.card ≤ m.map.keys.card + 1 := by
      unfold push
      rw [FMap.keys_insert]
      exact Finset.card_insert_le _ _
    rcases hroom with hold | hroom
    · exact hnew hold
    · omega
  rw [note_eq, if_neg hcond, maybeCompactOrder_map]
  rfl

/-- A note of a new address without room for it forgets the address of the first live entry. -/
theorem note_map_of_full (h : m.WellFormed) (hnew : addr ∉ m.map)
    (hfull : m.max ≤ m.map.keys.card) (now : Instant) :
    ∃ pre x rest, m.order ++ [(addr, m.nextSeq + 1)] = pre ++ x :: rest ∧
      (∀ y ∈ pre, ¬isLive (m.map.insert addr ⟨now, m.nextSeq + 1⟩) y) ∧
      isLive (m.map.insert addr ⟨now, m.nextSeq + 1⟩) x ∧
      (m.note addr now).map = (m.map.insert addr ⟨now, m.nextSeq + 1⟩).erase x.1 := by
  have hlt : m.max < (m.push addr now).map.keys.card := by
    unfold push
    rw [FMap.keys_insert, Finset.card_insert_of_notMem (mt Finmap.mem_keys.mp hnew)]
    omega
  have hin : addr ∈ (m.push addr now).map := Finmap.mem_insert.mpr (.inl rfl)
  obtain ⟨pre, x, rest, horder, hpre, hx, heq⟩ :=
    evictOldestLive_cases (h.queued_push addr now) ⟨addr, hin⟩
  refine ⟨pre, x, rest, horder, hpre, hx, ?_⟩
  rw [note_eq, if_pos ⟨hnew, hlt⟩, maybeCompactOrder_map, heq]
  rfl

/-- **The queue is short enough** after a compaction, if the entries of each address are told
apart. -/
theorem length_maybeCompactOrder_le (hmax : m.max ≤ usizeMax) (hcard : m.map.keys.card ≤ m.max)
    (hnodup : m.order.Nodup) : m.maybeCompactOrder.order.length ≤ orderBound m.max := by
  rw [maybeCompactOrder_order]
  split_ifs with hlen
  · exact hlen
  · -- a live entry is determined by its address
    have hinj : ((m.order.filter (isLive m.map)).map Prod.fst).Nodup := by
      refine List.Nodup.map_on ?_ (hnodup.filter _)
      rintro ⟨a, seq⟩ hx ⟨b, seq'⟩ hy hab
      obtain ⟨e, he, hseq⟩ := isLive_iff.mp (List.mem_filter.mp hx).2
      obtain ⟨e', he', hseq'⟩ := isLive_iff.mp (List.mem_filter.mp hy).2
      obtain rfl : a = b := hab
      obtain rfl : e = e' := Option.some.inj (he.symm.trans he')
      obtain rfl : seq = seq' := hseq.symm.trans hseq'
      rfl
    have hle : (m.order.filter (isLive m.map)).length ≤ m.map.keys.card := by
      rw [← List.length_map Prod.fst, ← List.toFinset_card_of_nodup hinj]
      apply Finset.card_le_card
      intro a ha
      obtain ⟨x, hx, rfl⟩ := List.mem_map.mp (List.mem_toFinset.mp ha)
      obtain ⟨e, he, -⟩ := isLive_iff.mp (List.mem_filter.mp hx).2
      exact Finmap.mem_keys.mpr (Finmap.mem_of_lookup_eq_some he)
    unfold orderBound saturatingMul
    omega

end WellFormed

end BoundedActivityMap

/-! ## Notes and removals -/

/-- An operation on the activity map. -/
inductive ActivityOp
  | note (addr : SocketAddr) (now : Instant)
  | remove (addr : SocketAddr)
  deriving DecidableEq

/-- The activity map beside the notes so far, the latest first. -/
structure Noted where
  activity : BoundedActivityMap
  notes : List (SocketAddr × Instant)
  deriving DecidableEq

/-- One operation. -/
def Noted.next (s : Noted) : ActivityOp → Noted
  | .note addr now => ⟨s.activity.note addr now, (addr, now) :: s.notes⟩
  | .remove addr => { s with activity := s.activity.remove addr }

/-- Notes and removals, in any order. -/
def activities (bound : ℕ) : System Noted ActivityOp :=
  .ofFn ⟨.new bound, []⟩ fun s op => some (s.next op)

/-- The number of the last note of an address, counted from one; zero if it was never noted. -/
def noteNumber : List (SocketAddr × Instant) → SocketAddr → ℕ
  | [], _ => 0
  | (addr, _) :: notes, a => if a = addr then notes.length + 1 else noteNumber notes a

/-- The time of the last note of an address. -/
def lastNoted : List (SocketAddr × Instant) → SocketAddr → Option Instant
  | [], _ => none
  | (addr, now) :: notes, a => if a = addr then some now else lastNoted notes a

namespace Noted

variable {bound : ℕ} {s : Noted}

/-- Every reachable map is well-formed, with the bound it was made with. -/
theorem wellFormed_of_reach (h : (activities bound).Reach s) :
    s.activity.WellFormed ∧ s.activity.max = Max.max bound 1 := by
  refine h.invariant (I := fun s => s.activity.WellFormed ∧ s.activity.max = Max.max bound 1) ?_ ?_
  · rintro _ rfl
    exact ⟨BoundedActivityMap.wellFormed_new bound, rfl⟩
  · rintro s op _ - ⟨hwf, hmax⟩ hstep
    obtain rfl := Option.some.inj hstep
    cases op with
    | note addr now =>
      exact ⟨hwf.note addr now,
        (BoundedActivityMap.note_shape s.activity addr now).1.trans hmax⟩
    | remove addr =>
      exact ⟨hwf.remove addr, (BoundedActivityMap.remove_shape s.activity addr).1.trans hmax⟩

/-- **The map keeps the time of the last note** of every tracked address, after any number of
notes. -/
theorem lastSeen_of_reach (h : (activities bound).Reach s) (a : SocketAddr) (e : ActivityEntry)
    (he : s.activity.map.lookup a = some e) : lastNoted s.notes a = some e.lastSeen := by
  refine h.invariant (I := fun s => ∀ a e, s.activity.map.lookup a = some e →
    lastNoted s.notes a = some e.lastSeen) ?_ ?_ a e he
  · rintro _ rfl a e he
    simp [BoundedActivityMap.new] at he
  · rintro s op _ - hI hstep a e he
    obtain rfl := Option.some.inj hstep
    cases op with
    | note addr now =>
      have hlook := (BoundedActivityMap.note_shape s.activity addr now).2.2.2 a e he
      show (if a = addr then some now else lastNoted s.notes a) = some e.lastSeen
      rw [FMap.lookup_insert_eq_ite] at hlook
      split_ifs at hlook ⊢
      · rw [← Option.some.inj hlook]
      · exact hI a e hlook
    | remove addr =>
      have heq := (BoundedActivityMap.remove_shape s.activity addr).2.2.2
      have hlook : (s.activity.map.erase addr).lookup a = some e := heq ▸ he
      rw [FMap.lookup_erase_eq_ite] at hlook
      split_ifs at hlook
      exact hI a e hlook

/-- The sequence numbers are the numbers of the notes: those of the tracked addresses are of their
last notes, and the queue is in their order. -/
structure Numbered (s : Noted) : Prop where
  next : s.activity.nextSeq.toNat = s.notes.length
  entry : ∀ a e, s.activity.map.lookup a = some e → e.seq.toNat = noteNumber s.notes a
  sorted : s.activity.order.Pairwise fun x y => x.2.toNat < y.2.toNat
  recent : ∀ x ∈ s.activity.order, x.2.toNat ≤ s.notes.length

/-- The next sequence number is that of the next note. -/
theorem Numbered.next_toNat (h : s.Numbered) (hnotes : s.notes.length + 1 < 2 ^ 64) :
    (s.activity.nextSeq + 1).toNat = s.notes.length + 1 := by
  rw [UInt64.toNat_add, h.next]
  exact Nat.mod_eq_of_lt hnotes

/-- The queue stays sorted when the entry of the next note is pushed. -/
theorem Numbered.sorted_push (h : s.Numbered) (hnotes : s.notes.length + 1 < 2 ^ 64)
    (addr : SocketAddr) :
    (s.activity.order ++ [(addr, s.activity.nextSeq + 1)]).Pairwise
      fun x y => x.2.toNat < y.2.toNat := by
  refine List.pairwise_append.mpr ⟨h.sorted, List.pairwise_singleton _ _, fun x hx y hy => ?_⟩
  obtain rfl := List.mem_singleton.mp hy
  have hnext := h.next_toNat hnotes
  have hrecent := h.recent x hx
  show x.2.toNat < (s.activity.nextSeq + 1).toNat
  omega

/-- An operation keeps the numbers, as long as there are fewer than `2 ^ 64` notes.

**Proof sketch.** A note pushes an entry with the next number, which is the highest so far. What
else an operation does is to drop entries and addresses. -/
theorem Numbered.next_op (h : s.Numbered) (op : ActivityOp)
    (hnotes : (s.next op).notes.length < 2 ^ 64) : (s.next op).Numbered := by
  cases op with
  | note addr now =>
    obtain ⟨-, hseq, horder, hmap⟩ := BoundedActivityMap.note_shape s.activity addr now
    have hnext := h.next_toNat hnotes
    refine ⟨?_, fun a e he => ?_, (h.sorted_push hnotes addr).sublist horder,
      fun x hx => ?_⟩
    · show (s.activity.note addr now).nextSeq.toNat = s.notes.length + 1
      rw [hseq, hnext]
    · have hlook := hmap a e he
      show e.seq.toNat = if a = addr then s.notes.length + 1 else noteNumber s.notes a
      rw [FMap.lookup_insert_eq_ite] at hlook
      split_ifs at hlook ⊢
      · rw [← Option.some.inj hlook]
        exact hnext
      · exact h.entry a e hlook
    · show x.2.toNat ≤ s.notes.length + 1
      rcases List.mem_append.mp (horder.subset hx) with hx | hx
      · exact (h.recent x hx).trans (Nat.le_succ _)
      · obtain rfl := List.mem_singleton.mp hx
        exact hnext.le
  | remove addr =>
    obtain ⟨-, hseq, horder, hmap⟩ := BoundedActivityMap.remove_shape s.activity addr
    refine ⟨?_, fun a e he => ?_, h.sorted.sublist horder,
      fun x hx => h.recent x (horder.subset hx)⟩
    · show (s.activity.remove addr).nextSeq.toNat = s.notes.length
      rw [hseq, h.next]
    · have hlook : (s.activity.map.erase addr).lookup a = some e := hmap ▸ he
      rw [FMap.lookup_erase_eq_ite] at hlook
      split_ifs at hlook
      exact h.entry a e hlook

/-- With fewer than `2 ^ 64` notes the sequence numbers are the numbers of the notes. -/
theorem numbered_of_reach (h : (activities bound).Reach s) (hnotes : s.notes.length < 2 ^ 64) :
    s.Numbered := by
  refine h.invariant (I := fun s => s.notes.length < 2 ^ 64 → s.Numbered) ?_ ?_ hnotes
  · rintro _ rfl -
    exact ⟨rfl, by simp [BoundedActivityMap.new], List.Pairwise.nil,
      by simp [BoundedActivityMap.new]⟩
  · rintro s op _ - hI hstep hnotes
    obtain rfl := Option.some.inj hstep
    refine (hI (Nat.lt_of_le_of_lt ?_ hnotes)).next_op op hnotes
    cases op with
    | note addr now => exact Nat.le_succ _
    | remove addr => exact Nat.le_refl _

/-- Entries in the order of their sequence numbers are told apart. -/
theorem nodup_of_sorted {order : List (SocketAddr × UInt64)}
    (h : order.Pairwise fun x y => x.2.toNat < y.2.toNat) : order.Nodup := by
  refine h.imp fun hlt heq => ?_
  rw [heq] at hlt
  exact Nat.lt_irrefl _ hlt

/-- **The queue is bounded** after every operation. -/
theorem length_order_le (hbound : bound ≤ usizeMax) (h : (activities bound).Reach s)
    (hnotes : s.notes.length < 2 ^ 64) :
    s.activity.order.length ≤ BoundedActivityMap.orderBound (Max.max 1 bound) := by
  have hmax : Max.max 1 bound ≤ usizeMax := Nat.max_le.mpr ⟨by decide, hbound⟩
  refine h.invariant (I := fun s => s.notes.length < 2 ^ 64 →
    s.activity.order.length ≤ BoundedActivityMap.orderBound (Max.max 1 bound)) ?_ ?_ hnotes
  · rintro _ rfl -
    exact Nat.zero_le _
  · rintro s op _ hr - hstep hnotes
    obtain rfl := Option.some.inj hstep
    obtain ⟨hwf, hsize⟩ := wellFormed_of_reach hr
    rw [max_comm] at hsize
    cases op with
    | note addr now =>
      have hlt : s.notes.length < 2 ^ 64 := (Nat.lt_succ_self _).trans hnotes
      have hsorted := (numbered_of_reach hr hlt).sorted_push hnotes addr
      have hcard := (hwf.note addr now).card
      show (s.activity.note addr now).order.length ≤ _
      rw [BoundedActivityMap.note_eq, BoundedActivityMap.maybeCompactOrder_map,
        BoundedActivityMap.maybeCompactOrder_max] at hcard
      rw [BoundedActivityMap.note_eq]
      split_ifs at hcard ⊢
      · obtain ⟨hmax', -, horder, -⟩ :=
          BoundedActivityMap.evictOldestLive_shape (s.activity.push addr now)
        have hsame : (s.activity.push addr now).evictOldestLive.max = Max.max 1 bound :=
          hmax'.trans hsize
        have hnodup := nodup_of_sorted (hsorted.sublist horder)
        have hle := BoundedActivityMap.length_maybeCompactOrder_le (hsame ▸ hmax) hcard hnodup
        rwa [hsame] at hle
      · have hsame : (s.activity.push addr now).max = Max.max 1 bound := hsize
        have hnodup := nodup_of_sorted hsorted
        have hle := BoundedActivityMap.length_maybeCompactOrder_le
          (m := s.activity.push addr now) (hsame ▸ hmax) hcard hnodup
        rwa [hsame] at hle
    | remove addr =>
      have hsorted := (numbered_of_reach hr hnotes).sorted
      have hcard := (hwf.remove addr).card
      show (s.activity.remove addr).order.length ≤ _
      rw [BoundedActivityMap.remove, BoundedActivityMap.maybeCompactOrder_map,
        BoundedActivityMap.maybeCompactOrder_max] at hcard
      rw [← hsize]
      exact BoundedActivityMap.length_maybeCompactOrder_le
        (m := { s.activity with map := s.activity.map.erase addr }) (hsize ▸ hmax) hcard
        (nodup_of_sorted hsorted)

/-- **Who is forgotten**: without room for a new address, the tracked address whose last note is
the earliest.

**Proof sketch.** The queue is in the order of the sequence numbers, and every tracked address has
a live entry in it, so the first live entry has the least number. It is not the entry of the new
address, which has the greatest. -/
theorem note_full (h : (activities bound).Reach s) (hnotes : s.notes.length + 1 < 2 ^ 64)
    {addr : SocketAddr} (now : Instant) (hnew : addr ∉ s.activity.map)
    (hfull : s.activity.max ≤ s.activity.map.keys.card) :
    ∃ x ∈ s.activity.map, (s.activity.note addr now).map =
        (s.activity.map.erase x).insert addr ⟨now, s.activity.nextSeq + 1⟩ ∧
      ∀ y ∈ s.activity.map, y ≠ x → noteNumber s.notes x < noteNumber s.notes y := by
  obtain ⟨hwf, -⟩ := wellFormed_of_reach h
  have hnum := numbered_of_reach h ((Nat.lt_succ_self _).trans hnotes)
  have hnext := hnum.next_toNat hnotes
  have hsorted := hnum.sorted_push hnotes addr
  obtain ⟨pre, ⟨a, seq⟩, rest, horder, hpre, hx, hmap⟩ :=
    BoundedActivityMap.note_map_of_full hwf hnew hfull now
  rw [horder] at hsorted
  -- the entry of a tracked address is not in front of the first live one
  have hbehind : ∀ b e, s.activity.map.lookup b = some e →
      (b, e.seq) = (a, seq) ∨ seq.toNat < e.seq.toNat := by
    intro b e he
    have hne : b ≠ addr := by
      rintro rfl
      exact hnew (Finmap.mem_of_lookup_eq_some he)
    have hlive : BoundedActivityMap.isLive
        (s.activity.map.insert addr ⟨now, s.activity.nextSeq + 1⟩) (b, e.seq) :=
      BoundedActivityMap.isLive_iff.mpr ⟨e, by rw [FMap.lookup_insert_eq_ite, if_neg hne, he], rfl⟩
    have hmem : (b, e.seq) ∈ pre ++ (a, seq) :: rest := by
      rw [← horder]
      exact List.mem_append_left _ (hwf.queued b e he)
    rcases List.mem_append.mp hmem with hin | hin
    · exact absurd hlive (hpre _ hin)
    · rcases List.mem_cons.mp hin with heq | hin
      · exact .inl heq
      · have htail := (List.pairwise_append.mp hsorted).2.1
        exact .inr ((List.pairwise_cons.mp htail).1 _ hin)
  have hold : ∀ b e, s.activity.map.lookup b = some e → e.seq.toNat ≤ s.notes.length :=
    fun b e he => hnum.recent _ (hwf.queued b e he)
  -- so its number is not that of the new note
  have hne : a ≠ addr := by
    rintro rfl
    obtain ⟨e, he, hseq⟩ := BoundedActivityMap.isLive_iff.mp hx
    rw [FMap.lookup_insert_eq_ite, if_pos rfl] at he
    obtain rfl := Option.some.inj he
    obtain ⟨b, hb⟩ : s.activity.map.keys.Nonempty :=
      Finset.card_pos.mp (hwf.max_pos.trans hfull)
    obtain ⟨e', he'⟩ := Finmap.mem_iff.mp (Finmap.mem_keys.mp hb)
    have hle := hold b e' he'
    have hseq' : seq.toNat = s.notes.length + 1 :=
      (congrArg UInt64.toNat hseq).symm.trans hnext
    rcases hbehind b e' he' with heq | hlt
    · exact hnew ((Prod.mk.inj heq).1 ▸ Finmap.mem_keys.mp hb)
    · omega
  obtain ⟨e, he, hseq⟩ := BoundedActivityMap.isLive_iff.mp hx
  rw [FMap.lookup_insert_eq_ite, if_neg hne] at he
  refine ⟨a, Finmap.mem_of_lookup_eq_some he, ?_, fun y hy hya => ?_⟩
  · rw [hmap]
    apply Finmap.ext_lookup
    intro b
    rw [FMap.lookup_erase_eq_ite, FMap.lookup_insert_eq_ite, FMap.lookup_insert_eq_ite,
      FMap.lookup_erase_eq_ite]
    by_cases hb : b = a
    · rw [if_pos hb, if_neg (hb ▸ hne), if_pos hb]
    · rw [if_neg hb, if_neg hb]
  · obtain ⟨e', he'⟩ := Finmap.mem_iff.mp hy
    rw [← hnum.entry a e he, ← hnum.entry y e' he']
    rcases hbehind y e' he' with heq | hlt
    · exact absurd (Prod.mk.inj heq).1 hya
    · rw [hseq]
      exact hlt

end Noted

/-! ## A bounded least-recently-active map -/

/-- The bounds of the map and of the queue, and the order of the live entries. -/
structure LeastRecent (bound : ℕ) (s : Noted) : Prop where
  tracked : s.activity.map.keys.card ≤ Max.max 1 bound
  order : s.activity.order.length ≤ Max.max 16 (saturatingMul (Max.max 1 bound) 4)
  live_once : ∀ a e, s.activity.map.lookup a = some e → s.activity.order.count (a, e.seq) = 1
  live_sorted : (s.activity.order.filter (BoundedActivityMap.isLive s.activity.map)).Pairwise
    fun x y => noteNumber s.notes x.1 < noteNumber s.notes y.1

/-- A note leaves its address tracked, and forgets the address whose last note is the earliest if
there is no room for a new one; no other entry changes. -/
structure NotesMostRecent (bound : ℕ) (s : Noted) (addr : SocketAddr) (now : Instant) : Prop where
  tracked : addr ∈ (s.activity.note addr now).map
  room : addr ∈ s.activity.map ∨ s.activity.map.keys.card < Max.max 1 bound →
    (s.activity.note addr now).map = s.activity.map.insert addr ⟨now, s.activity.nextSeq + 1⟩
  full : addr ∉ s.activity.map → Max.max 1 bound ≤ s.activity.map.keys.card →
    ∃ x ∈ s.activity.map, (s.activity.note addr now).map =
        (s.activity.map.erase x).insert addr ⟨now, s.activity.nextSeq + 1⟩ ∧
      ∀ y ∈ s.activity.map, y ≠ x → noteNumber s.notes x < noteNumber s.notes y

/-- **The activity map is a bounded least-recently-active map**: in every state that fewer than
`2 ^ 64` notes and any removals reach, for every bound (a `usize`), map and queue are bounded,
each tracked address has one live entry in the queue and these are in the order of the last
notes; and a further note leaves its address tracked and evicts nothing but the address noted
least recently. -/
theorem leastRecent_of_reach {bound : ℕ} {s : Noted} (hbound : bound ≤ usizeMax)
    (h : (activities bound).Reach s) (hnotes : s.notes.length < 2 ^ 64) :
    LeastRecent bound s ∧ ∀ addr now, s.notes.length + 1 < 2 ^ 64 →
      NotesMostRecent bound s addr now := by
  obtain ⟨hwf, hmax⟩ := Noted.wellFormed_of_reach h
  rw [max_comm] at hmax
  have hnum := Noted.numbered_of_reach h hnotes
  refine ⟨⟨hmax ▸ hwf.card, Noted.length_order_le hbound h hnotes, fun a e he => ?_, ?_⟩,
    fun addr now hnext => ?_⟩
  · exact List.count_eq_one_of_mem (Noted.nodup_of_sorted hnum.sorted) (hwf.queued a e he)
  · refine (hnum.sorted.filter _).imp_of_mem fun hx hy hlt => ?_
    obtain ⟨e, he, hseq⟩ := BoundedActivityMap.isLive_iff.mp (List.mem_filter.mp hx).2
    obtain ⟨e', he', hseq'⟩ := BoundedActivityMap.isLive_iff.mp (List.mem_filter.mp hy).2
    rwa [← hnum.entry _ e he, ← hnum.entry _ e' he', hseq, hseq']
  · have hroom : addr ∈ s.activity.map ∨ s.activity.map.keys.card < Max.max 1 bound →
        (s.activity.note addr now).map =
          s.activity.map.insert addr ⟨now, s.activity.nextSeq + 1⟩ := by
      rw [← hmax]
      exact BoundedActivityMap.note_map_of_room
    have hfull := fun hnew : addr ∉ s.activity.map => Noted.note_full h hnext now hnew
    rw [hmax] at hfull
    refine ⟨?_, hroom, hfull⟩
    by_cases hcase : addr ∈ s.activity.map ∨ s.activity.map.keys.card < Max.max 1 bound
    · rw [hroom hcase]
      exact Finmap.mem_insert.mpr (.inl rfl)
    · obtain ⟨hnew, hge⟩ := not_or.mp hcase
      obtain ⟨x, -, heq, -⟩ := hfull hnew (Nat.not_lt.mp hge)
      rw [heq]
      exact Finmap.mem_insert.mpr (.inl rfl)

/-- With room for two connections, `10.0.0.1` is removed and noted again after `10.0.0.2`, so that
`10.0.0.3` takes the place of `10.0.0.2`. -/
theorem leastRecent_of_reach_three :
    ∃ s : Noted, (activities 2).Reach s ∧
      s.activity.map.keys = {.v4 (ipv4 10 0 0 1) 1001, .v4 (ipv4 10 0 0 3) 1003} ∧
      LeastRecent 2 s := by
  have h : (activities 2).Reach _ :=
    .step (l := .note (.v4 (ipv4 10 0 0 3) 1003) 4)
      (.step (l := .note (.v4 (ipv4 10 0 0 1) 1001) 3)
        (.step (l := .remove (.v4 (ipv4 10 0 0 1) 1001))
          (.step (l := .note (.v4 (ipv4 10 0 0 2) 1002) 2)
            (.step (l := .note (.v4 (ipv4 10 0 0 1) 1001) 1) (.init rfl) rfl) rfl) rfl) rfl) rfl
  exact ⟨_, h, by decide +kernel, (leastRecent_of_reach (by decide) h (by decide)).1⟩

end Synclaire
