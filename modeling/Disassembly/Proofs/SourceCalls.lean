import Mathlib.Data.List.Forall2
import Disassembly.Source

/-!
# Calls on a source

A source may be asked for the next byte or for several, in any order and as often as one likes, also
behind a fault and behind the end of the data. This file follows such a session to the single read
call of the device:

* `NextIn` and `TakeIn` make one read call after another and say after how many of them a call
  returns; every call does (`exists_returnsIn`);
* `Spends` says what has become of the events that a call has read: the bytes among them are those
  it hands out, and the fault among them, if there is one, is what it reports;
* a session shares out the events that have been read among its calls, each event to one of them
  (`exists_shares`), so no byte is lost or handed out twice and no fault is reported twice.
-/

namespace Disassembly.Source

/-! ## 1. Calls -/

/-- What a source can be asked for. -/
inductive Call where
  | next
  | take (count : Nat)
deriving DecidableEq, Repr

/-- What a call answers: the bytes it hands out, and how it ended. -/
structure Answer where
  bytes : List UInt8
  supply : Supply
deriving DecidableEq, Repr

namespace Answer

/-- The answer to a call for the next byte. -/
def ofNext : NextByte → Answer
  | .byte value => { bytes := [value], supply := .full }
  | .endOfData => { bytes := [], supply := .short }
  | .fault detail => { bytes := [], supply := .fault detail }

/-- The answer to a call for several bytes. -/
def ofTaken (taken : Taken) : Answer where
  bytes := taken.bytes
  supply := taken.supply

/-- The fault that a call reports. -/
def fault? (answer : Answer) : Option String :=
  match answer.supply with
  | .fault detail => some detail
  | .full | .short => none

end Answer

namespace Call

/-- How many bytes a call asks for. -/
def wanted : Call → Nat
  | next => 1
  | take count => count

/-- Makes a call: its answer, and the source behind it. -/
def on (source : Source) : Call → Answer × Source
  | next => (.ofNext source.next.1, source.next.2)
  | take count => (.ofTaken (source.take count), (source.take count).rest)

end Call

/-- Makes calls one after another: their answers, and the source behind the last of them. -/
def serve (source : Source) : List Call → List Answer × Source
  | [] => ([], source)
  | call :: calls =>
    let (answer, rest) := call.on source
    let (answers, last) := rest.serve calls
    (answer :: answers, last)

/-! ## 2. Read calls -/

/-- `NextIn reads source answer rest`: the call for the next byte returns after so many read calls.
    There is a constructor for each thing that a read call may answer, and only an interrupted one
    is followed by another. -/
inductive NextIn : Nat → Source → NextByte → Source → Prop
  | byte (value : UInt8) (pending : List ReadEvent) (consumed : Nat) :
      NextIn 1 ⟨.byte value :: pending, consumed⟩ (.byte value) ⟨pending, consumed + 1⟩
  | endOfData (consumed : Nat) : NextIn 1 ⟨[], consumed⟩ .endOfData ⟨[], consumed⟩
  | fault (detail : String) (pending : List ReadEvent) (consumed : Nat) :
      NextIn 1 ⟨.fault detail :: pending, consumed⟩ (.fault detail) ⟨pending, consumed⟩
  | retry {reads : Nat} {pending : List ReadEvent} {consumed : Nat} {answer : NextByte}
      {rest : Source} (h : NextIn reads ⟨pending, consumed⟩ answer rest) :
      NextIn (reads + 1) ⟨.retry :: pending, consumed⟩ answer rest

/-- `TakeIn reads count source taken`: the call for several bytes asks for one after another, and
    returns after so many read calls in all. -/
inductive TakeIn : Nat → Nat → Source → Taken → Prop
  | full (source : Source) : TakeIn 0 0 source { bytes := [], supply := .full, rest := source }
  | byte {first others count : Nat} {value : UInt8} {source middle : Source} {taken : Taken}
      (hnext : NextIn first source (.byte value) middle) (h : TakeIn others count middle taken) :
      TakeIn (first + others) (count + 1) source { taken with bytes := value :: taken.bytes }
  | endOfData {reads count : Nat} {source rest : Source}
      (hnext : NextIn reads source .endOfData rest) :
      TakeIn reads (count + 1) source { bytes := [], supply := .short, rest }
  | fault {reads count : Nat} {detail : String} {source rest : Source}
      (hnext : NextIn reads source (.fault detail) rest) :
      TakeIn reads (count + 1) source { bytes := [], supply := .fault detail, rest }

/-- `ReturnsIn reads source call result`: the call returns after so many read calls. -/
inductive ReturnsIn (reads : Nat) (source : Source) : Call → Answer × Source → Prop
  | next {answer : NextByte} {rest : Source} (h : NextIn reads source answer rest) :
      ReturnsIn reads source .next (.ofNext answer, rest)
  | take {count : Nat} {taken : Taken} (h : TakeIn reads count source taken) :
      ReturnsIn reads source (.take count) (.ofTaken taken, taken.rest)

theorem exists_nextIn {source rest : Source} {answer : NextByte}
    (h : source.next = (answer, rest)) : ∃ reads, NextIn reads source answer rest := by
  obtain ⟨pending, consumed⟩ := source
  induction pending with
  | nil =>
    cases h
    exact ⟨1, .endOfData consumed⟩
  | cons event pending ih =>
    cases event with
    | byte value =>
      cases h
      exact ⟨1, .byte value pending consumed⟩
    | retry =>
      obtain ⟨reads, hreads⟩ := ih h
      exact ⟨reads + 1, .retry hreads⟩
    | fault detail =>
      cases h
      exact ⟨1, .fault detail pending consumed⟩

/-- Bytes that a request has got before stand in front of those that it gets. -/
theorem exists_takeIn_takeOnto (count : Nat) (source : Source) :
    ∃ reads taken, TakeIn reads count source taken ∧
      ∀ before, takeOnto before count source =
        { taken with bytes := before.reverse ++ taken.bytes } := by
  induction count generalizing source with
  | zero => exact ⟨0, _, .full source, fun before => by simp [takeOnto]⟩
  | succ count ih =>
    obtain ⟨⟨answer, middle⟩, hanswer⟩ : ∃ result, source.next = result := ⟨_, rfl⟩
    obtain ⟨first, hnext⟩ := exists_nextIn hanswer
    cases answer with
    | byte value =>
      obtain ⟨others, taken, htaken, heq⟩ := ih middle
      refine ⟨_, _, .byte hnext htaken, fun before => ?_⟩
      rw [takeOnto, hanswer]
      simp [heq (value :: before)]
    | endOfData =>
      refine ⟨_, _, .endOfData hnext, fun before => ?_⟩
      rw [takeOnto, hanswer, List.append_nil]
    | fault detail =>
      refine ⟨_, _, .fault hnext, fun before => ?_⟩
      rw [takeOnto, hanswer, List.append_nil]

theorem exists_takeIn (count : Nat) (source : Source) :
    ∃ reads, TakeIn reads count source (source.take count) := by
  obtain ⟨reads, taken, htaken, heq⟩ := exists_takeIn_takeOnto count source
  refine ⟨reads, ?_⟩
  rw [take, heq []]
  exact htaken

/-! ## 3. What becomes of the events -/

/-- The bytes among events, those behind faults with them. -/
def bytesOf (events : List ReadEvent) : List UInt8 :=
  events.filterMap fun
    | .byte value => some value
    | .retry | .fault _ => none

/-- The faults among events. -/
def faultsOf (events : List ReadEvent) : List String :=
  events.filterMap fun
    | .fault detail => some detail
    | .byte _ | .retry => none

theorem bytesOf_append (events others : List ReadEvent) :
    bytesOf (events ++ others) = bytesOf events ++ bytesOf others := List.filterMap_append

theorem faultsOf_append (events others : List ReadEvent) :
    faultsOf (events ++ others) = faultsOf events ++ faultsOf others := List.filterMap_append

/-- `Spends source events answer rest`: a call with this answer has used up these events, and `rest`
    is the source behind it. Where the call has met the end of the data no event is left. -/
structure Spends (source : Source) (events : List ReadEvent) (answer : Answer) (rest : Source) :
    Prop where
  pending : source.pending = events ++ rest.pending
  bytes : bytesOf events = answer.bytes
  faults : faultsOf events = answer.fault?.toList
  consumed : rest.consumed = source.consumed + answer.bytes.length
  short : answer.supply = .short → rest.pending = []

/-- How many read calls say that the data has ended. -/
def endReads (answer : Answer) : Nat := if answer.supply = .short then 1 else 0

/-- A call for the next byte makes one read call for every event it uses up, and one more to learn
    that there is none. -/
theorem NextIn.spends {reads : Nat} {source rest : Source} {answer : NextByte}
    (h : NextIn reads source answer rest) :
    ∃ events, source.Spends events (.ofNext answer) rest ∧
      reads = events.length + endReads (.ofNext answer) := by
  induction h with
  | byte value pending consumed =>
    exact ⟨[.byte value], ⟨rfl, rfl, rfl, rfl, nofun⟩, rfl⟩
  | endOfData consumed => exact ⟨[], ⟨rfl, rfl, rfl, rfl, fun _ => rfl⟩, rfl⟩
  | fault detail pending consumed =>
    exact ⟨[.fault detail], ⟨rfl, rfl, rfl, rfl, nofun⟩, rfl⟩
  | retry _ ih =>
    obtain ⟨events, ⟨hpending, hbytes, hfaults, hconsumed, hshort⟩, hreads⟩ := ih
    refine ⟨.retry :: events, ⟨congrArg _ hpending, hbytes, hfaults, hconsumed, hshort⟩, ?_⟩
    rw [hreads, List.length_cons]
    omega

/-- The same for a call for several bytes, in which a byte does not end the call. -/
theorem TakeIn.spends {reads count : Nat} {source : Source} {taken : Taken}
    (h : TakeIn reads count source taken) :
    ∃ events, source.Spends events (.ofTaken taken) taken.rest ∧
      reads = events.length + endReads (.ofTaken taken) := by
  induction h with
  | full source => exact ⟨[], ⟨rfl, rfl, rfl, rfl, nofun⟩, rfl⟩
  | @byte first others count value source middle taken hnext _ ih =>
    obtain ⟨events, hfirst, hreads⟩ := hnext.spends
    obtain ⟨later, hothers, hlater⟩ := ih
    refine ⟨events ++ later, ⟨?_, ?_, ?_, ?_, hothers.short⟩, ?_⟩
    · rw [hfirst.pending, hothers.pending, List.append_assoc]
    · rw [bytesOf_append, hfirst.bytes, hothers.bytes]
      rfl
    · rw [faultsOf_append, hfirst.faults, hothers.faults]
      rfl
    · rw [hothers.consumed, hfirst.consumed, Nat.add_assoc, Nat.add_comm _ (List.length _)]
      rfl
    · rw [hreads, hlater, List.length_append, ← Nat.add_assoc]
      rfl
  | endOfData hnext => exact hnext.spends
  | fault hnext => exact hnext.spends

/-- A request is met exactly if it gets as many bytes as it asks for. -/
theorem TakeIn.full_iff {reads count : Nat} {source : Source} {taken : Taken}
    (h : TakeIn reads count source taken) :
    taken.supply = .full ↔ taken.bytes.length = count := by
  induction h with
  | full source => exact ⟨fun _ => rfl, fun _ => rfl⟩
  | byte _ _ ih => exact ih.trans Nat.succ_inj.symm
  | endOfData _ => exact ⟨nofun, nofun⟩
  | fault _ => exact ⟨nofun, nofun⟩

section Calls

variable (source : Source) (call : Call)

theorem full_iff_on :
    (call.on source).1.supply = .full ↔ (call.on source).1.bytes.length = call.wanted := by
  cases call with
  | next =>
    show (Answer.ofNext source.next.1).supply = .full ↔
      (Answer.ofNext source.next.1).bytes.length = 1
    cases source.next.1 with
    | byte value => exact ⟨fun _ => rfl, fun _ => rfl⟩
    | endOfData => exact ⟨nofun, nofun⟩
    | fault detail => exact ⟨nofun, nofun⟩
  | take count =>
    obtain ⟨reads, h⟩ := exists_takeIn count source
    exact h.full_iff

/-- **Every call returns**, and makes one read call for every event that it uses up, and one more if
    it meets the end of the data. -/
theorem exists_returnsIn :
    ∃ reads events, ReturnsIn reads source call (call.on source) ∧
      source.Spends events (call.on source).1 (call.on source).2 ∧
      reads = events.length + endReads (call.on source).1 := by
  cases call with
  | next =>
    obtain ⟨reads, h⟩ := exists_nextIn (rfl : source.next = source.next)
    obtain ⟨events, hspends, hreads⟩ := h.spends
    exact ⟨reads, events, .next h, hspends, hreads⟩
  | take count =>
    obtain ⟨reads, h⟩ := exists_takeIn count source
    obtain ⟨events, hspends, hreads⟩ := h.spends
    exact ⟨reads, events, .take h, hspends, hreads⟩

end Calls

/-! ## 4. Sessions -/

/-- The events have been used up by a call with this answer: it hands out the bytes among them, and
    reports the fault among them, if there is one. -/
def AnsweredBy (events : List ReadEvent) (answer : Answer) : Prop :=
  bytesOf events = answer.bytes ∧ faultsOf events = answer.fault?.toList

/-- **The calls of a session share out the events that are read.** -/
theorem exists_shares (source : Source) (calls : List Call) :
    ∃ shares : List (List ReadEvent),
      source.pending = shares.flatten ++ (source.serve calls).2.pending ∧
      List.Forall₂ AnsweredBy shares (source.serve calls).1 ∧
      (source.serve calls).2.consumed =
        source.consumed + ((source.serve calls).1.flatMap (·.bytes)).length := by
  induction calls generalizing source with
  | nil => exact ⟨[], rfl, .nil, rfl⟩
  | cons call calls ih =>
    obtain ⟨-, events, -, hspends, -⟩ := exists_returnsIn source call
    obtain ⟨shares, hpending, hanswers, hconsumed⟩ := ih (call.on source).2
    refine ⟨events :: shares, ?_, .cons ⟨hspends.bytes, hspends.faults⟩ hanswers, ?_⟩
    · rw [hspends.pending, hpending, List.flatten_cons, List.append_assoc]
      rfl
    · show ((call.on source).2.serve calls).2.consumed = _
      rw [hconsumed, hspends.consumed, Nat.add_assoc, ← List.length_append]
      rfl

theorem bytesOf_flatten {shares : List (List ReadEvent)} {answers : List Answer}
    (h : List.Forall₂ AnsweredBy shares answers) :
    bytesOf shares.flatten = answers.flatMap (·.bytes) := by
  induction h with
  | nil => rfl
  | cons hfirst _ ih =>
    rw [List.flatten_cons, bytesOf_append, hfirst.1, ih, List.flatMap_cons]

/-- **No byte is lost and none is handed out twice**, whatever is asked of a source and whatever its
    device does. The bytes that a session hands out are the first that the device has, as many as
    are counted. The events that have been read are shared out among the calls, so each fault is
    reported by the call that has read it and by no other. A call counts the bytes that it hands out
    and nothing else; it is met exactly if these are as many as it asks for; it runs short only
    where nothing is left; and it returns after as many read calls as it uses up events, and one
    more if it meets the end of the data. -/
theorem calls_conserve_events (events : List ReadEvent) (calls : List Call) :
    let answers := (serve { pending := events } calls).1
    let rest := (serve { pending := events } calls).2
    answers.flatMap (·.bytes) = (bytesOf events).take rest.consumed ∧
    rest.consumed ≤ (bytesOf events).length ∧
    (∃ shares : List (List ReadEvent), events = shares.flatten ++ rest.pending ∧
      List.Forall₂ AnsweredBy shares answers) ∧
    ∀ (source : Source) (call : Call),
      let answer := (call.on source).1
      let after := (call.on source).2
      after.consumed = source.consumed + answer.bytes.length ∧
      (answer.supply = .full ↔ answer.bytes.length = call.wanted) ∧
      (answer.supply = .short → after.pending = []) ∧
      ∃ reads, ReturnsIn reads source call (answer, after) ∧
        reads + after.pending.length = source.pending.length + endReads answer := by
  intro answers rest
  obtain ⟨shares, hpending, hanswers, hconsumed⟩ := exists_shares { pending := events } calls
  have hbytes : bytesOf events = answers.flatMap (·.bytes) ++ bytesOf rest.pending := by
    rw [show events = shares.flatten ++ rest.pending from hpending, bytesOf_append,
      bytesOf_flatten hanswers]
  have hcount : rest.consumed = (answers.flatMap (·.bytes)).length :=
    hconsumed.trans (Nat.zero_add _)
  refine ⟨?_, ?_, ⟨shares, hpending, hanswers⟩, fun source call => ?_⟩
  · rw [hbytes, hcount, List.take_left]
  · rw [hbytes, hcount, List.length_append]
    exact Nat.le_add_right _ _
  · obtain ⟨reads, used, hreturns, hspends, hreads⟩ := exists_returnsIn source call
    refine ⟨hspends.consumed, full_iff_on source call, hspends.short, reads, hreturns, ?_⟩
    rw [hreads, hspends.pending, List.length_append]
    omega

end Disassembly.Source
