import Disassembly.Source

/-!
# What lies ahead in a source

A source is a list of answers to come, with retries among them. A reader learns nothing of it but
the bytes before the first fault (`ahead`), what stands behind them, a fault or the end of the data
(`faultAhead`), and how many bytes have gone before. This file fixes that view:

* `Yields`, which says that a source hands out some bytes and what it is then;
* `next` and `take` in the view: they answer the bytes ahead where there are enough of them
  (`next_of_cons`, `take_of_le`), and what stands behind these where there are not.

Retries are nowhere in the view, so they change nothing that is said in it.
-/

namespace Disassembly.Source

/-! ## 1. The view -/

/-- The bytes among pending answers that come before the first fault. -/
def aheadOf : List ReadEvent → List UInt8
  | [] => []
  | .byte value :: rest => value :: aheadOf rest
  | .retry :: rest => aheadOf rest
  | .fault _ :: _ => []

/-- The first fault among pending answers, in the words of the device. -/
def faultOf : List ReadEvent → Option String
  | [] => none
  | .byte _ :: rest => faultOf rest
  | .retry :: rest => faultOf rest
  | .fault detail :: _ => some detail

/-- The bytes that reading will hand out before it meets a fault or the end. -/
def ahead (source : Source) : List UInt8 := aheadOf source.pending

/-- The fault that comes behind those bytes; nothing, if it is the end of the data that does. -/
def faultAhead (source : Source) : Option String := faultOf source.pending

theorem aheadOf_map_byte (bytes : List UInt8) : aheadOf (bytes.map .byte) = bytes := by
  induction bytes with
  | nil => rfl
  | cons b bytes ih => rw [List.map_cons, aheadOf, ih]

theorem faultOf_map_byte (bytes : List UInt8) : faultOf (bytes.map .byte) = none := by
  induction bytes with
  | nil => rfl
  | cons b bytes ih => rw [List.map_cons, faultOf, ih]

@[simp] theorem ahead_ofBytes (bytes : List UInt8) : (ofBytes bytes).ahead = bytes :=
  aheadOf_map_byte bytes

@[simp] theorem faultAhead_ofBytes (bytes : List UInt8) : (ofBytes bytes).faultAhead = none :=
  faultOf_map_byte bytes

/-- The source when all bytes ahead have been read and the end of the data has been met. -/
def spent (source : Source) : Source where
  pending := []
  consumed := source.consumed + source.ahead.length

/-- `source` hands out `bytes`, and `rest` is the source behind them. -/
structure Yields (source : Source) (bytes : List UInt8) (rest : Source) : Prop where
  ahead : source.ahead = bytes ++ rest.ahead
  fault : source.faultAhead = rest.faultAhead
  consumed : rest.consumed = source.consumed + bytes.length

namespace Yields

theorem refl (source : Source) : source.Yields [] source := ⟨rfl, rfl, rfl⟩

theorem trans {source middle rest : Source} {bytes others : List UInt8}
    (h : source.Yields bytes middle) (h' : middle.Yields others rest) :
    source.Yields (bytes ++ others) rest where
  ahead := by rw [h.ahead, h'.ahead, List.append_assoc]
  fault := h.fault.trans h'.fault
  consumed := by
    rw [h'.consumed, h.consumed, List.length_append]
    omega

/-- Where a source is spent does not depend on how much of it has been read. -/
theorem spent_eq {source rest : Source} {bytes : List UInt8} (h : source.Yields bytes rest) :
    rest.spent = source.spent := by
  have hlen : source.ahead.length = bytes.length + rest.ahead.length := by
    rw [h.ahead, List.length_append]
  have hconsumed := h.consumed
  simp only [spent, mk.injEq, true_and]
  omega

end Yields

/-! ## 2. The next byte -/

theorem nextOf_of_cons {pending : List ReadEvent} {b : UInt8} {bytes : List UInt8}
    (consumed : Nat) (h : aheadOf pending = b :: bytes) :
    ∃ rest, nextOf consumed pending = (.byte b, { pending := rest, consumed := consumed + 1 }) ∧
      aheadOf rest = bytes ∧ faultOf rest = faultOf pending := by
  induction pending with
  | nil => cases h
  | cons event pending ih =>
    cases event with
    | byte value =>
      obtain ⟨rfl, hrest⟩ := List.cons.inj h
      exact ⟨pending, rfl, hrest, rfl⟩
    | retry => exact ih h
    | fault detail => cases h

/-- A byte ahead is the next one. -/
theorem next_of_cons {source : Source} {b : UInt8} {bytes : List UInt8}
    (h : source.ahead = b :: bytes) :
    ∃ rest, source.next = (.byte b, rest) ∧ source.Yields [b] rest ∧ rest.ahead = bytes := by
  obtain ⟨rest, hnext, hahead, hfault⟩ := nextOf_of_cons source.consumed h
  exact ⟨_, hnext, ⟨h.trans (congrArg (b :: ·) hahead.symm), hfault.symm, rfl⟩, hahead⟩

theorem nextOf_of_end {pending : List ReadEvent} (consumed : Nat) (h : aheadOf pending = [])
    (hfault : faultOf pending = none) :
    nextOf consumed pending = (.endOfData, { pending := [], consumed }) := by
  induction pending with
  | nil => rfl
  | cons event pending ih =>
    cases event with
    | byte value => cases h
    | retry => exact ih h hfault
    | fault detail => cases hfault

theorem next_of_end {source : Source} (h : source.ahead = []) (hfault : source.faultAhead = none) :
    source.next = (.endOfData, source.spent) := by
  rw [next, nextOf_of_end _ h hfault, spent, h]
  rfl

theorem nextOf_of_fault {pending : List ReadEvent} {detail : String} (consumed : Nat)
    (h : aheadOf pending = []) (hfault : faultOf pending = some detail) :
    ∃ rest, nextOf consumed pending = (.fault detail, rest) := by
  induction pending with
  | nil => cases hfault
  | cons event pending ih =>
    cases event with
    | byte value => cases h
    | retry => exact ih h hfault
    | fault words =>
      cases hfault
      exact ⟨_, rfl⟩

theorem next_of_fault {source : Source} {detail : String} (h : source.ahead = [])
    (hfault : source.faultAhead = some detail) :
    ∃ rest, source.next = (.fault detail, rest) :=
  nextOf_of_fault source.consumed h hfault

/-! ## 3. Several bytes -/

theorem takeOnto_of_le (taken : List UInt8) {count : Nat} {source : Source}
    (h : count ≤ source.ahead.length) :
    ∃ rest, takeOnto taken count source =
        { bytes := taken.reverse ++ source.ahead.take count, supply := .full, rest } ∧
      source.Yields (source.ahead.take count) rest := by
  induction count generalizing taken source with
  | zero => exact ⟨source, by simp [takeOnto], .refl source⟩
  | succ count ih =>
    cases hs : source.ahead with
    | nil =>
      rw [hs] at h
      cases h
    | cons b bytes =>
      obtain ⟨after, hnext, hyields, hafter⟩ := next_of_cons hs
      have hle : count ≤ after.ahead.length := by
        rw [hafter]
        rw [hs] at h
        exact Nat.le_of_succ_le_succ h
      obtain ⟨rest, htake, hrest⟩ := ih (b :: taken) hle
      refine ⟨rest, ?_, ?_⟩
      · rw [takeOnto, hnext]
        simp [htake, hafter]
      · rw [hafter] at hrest
        exact hyields.trans hrest

/-- A request for bytes that are there is met. -/
theorem take_of_le {source : Source} {count : Nat} (h : count ≤ source.ahead.length) :
    ∃ rest, source.take count =
        { bytes := source.ahead.take count, supply := .full, rest } ∧
      source.Yields (source.ahead.take count) rest :=
  takeOnto_of_le [] h

theorem takeOnto_of_end (taken : List UInt8) {count : Nat} {source : Source}
    (h : source.ahead.length < count) (hfault : source.faultAhead = none) :
    takeOnto taken count source =
      { bytes := taken.reverse ++ source.ahead, supply := .short, rest := source.spent } := by
  induction count generalizing taken source with
  | zero => cases h
  | succ count ih =>
    cases hs : source.ahead with
    | nil =>
      rw [takeOnto, next_of_end hs hfault, List.append_nil]
    | cons b bytes =>
      obtain ⟨after, hnext, hyields, hafter⟩ := next_of_cons hs
      have hlt : after.ahead.length < count := by
        rw [hafter]
        rw [hs] at h
        exact Nat.lt_of_succ_lt_succ h
      rw [takeOnto, hnext]
      simp [ih (b :: taken) hlt (hyields.fault.symm.trans hfault), hafter, hyields.spent_eq]

/-- A request for more bytes than there are before the end gets those. -/
theorem take_of_end {source : Source} {count : Nat} (h : source.ahead.length < count)
    (hfault : source.faultAhead = none) :
    source.take count = { bytes := source.ahead, supply := .short, rest := source.spent } :=
  takeOnto_of_end [] h hfault

theorem takeOnto_of_fault (taken : List UInt8) {count : Nat} {source : Source} {detail : String}
    (h : source.ahead.length < count) (hfault : source.faultAhead = some detail) :
    ∃ rest, takeOnto taken count source =
      { bytes := taken.reverse ++ source.ahead, supply := .fault detail, rest } := by
  induction count generalizing taken source with
  | zero => cases h
  | succ count ih =>
    cases hs : source.ahead with
    | nil =>
      obtain ⟨rest, hnext⟩ := next_of_fault hs hfault
      exact ⟨rest, by rw [takeOnto, hnext, List.append_nil]⟩
    | cons b bytes =>
      obtain ⟨after, hnext, hyields, hafter⟩ := next_of_cons hs
      have hlt : after.ahead.length < count := by
        rw [hafter]
        rw [hs] at h
        exact Nat.lt_of_succ_lt_succ h
      obtain ⟨rest, htake⟩ := ih (b :: taken) hlt (hyields.fault.symm.trans hfault)
      refine ⟨rest, ?_⟩
      rw [takeOnto, hnext]
      simp [htake, hafter]

/-- A request for more bytes than there are before a fault gets those, and the fault. -/
theorem take_of_fault {source : Source} {count : Nat} {detail : String}
    (h : source.ahead.length < count) (hfault : source.faultAhead = some detail) :
    ∃ rest, source.take count =
      { bytes := source.ahead, supply := .fault detail, rest } :=
  takeOnto_of_fault [] h hfault

end Disassembly.Source
