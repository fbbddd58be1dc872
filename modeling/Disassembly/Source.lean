/-!
# Byte sources

The input is read one byte at a time, and each read call may do something else than answer a byte:
it may be interrupted, which means nothing and is tried again, or it may fail, and reading may go
on after that. A source is what its read calls will answer, in order, and how many bytes have been
handed out. Behind the last answer comes the end of the data, as often as it is asked for.

The lemmas at the end say that reading uses a source up: what is left gets shorter with every byte
(`next_byte_lt`), which is why reading one unit after another comes to an end.
-/

namespace Disassembly

/-- What one read call answers. -/
inductive ReadEvent where
  | byte (value : UInt8)
  /-- The call was interrupted before it did anything. -/
  | retry
  /-- The call failed, in the words of the device. -/
  | fault (detail : String)
deriving DecidableEq, Repr

/-- What the read calls to come will answer, and the number of bytes handed out so far. -/
structure Source where
  pending : List ReadEvent
  consumed : Nat := 0
deriving DecidableEq, Repr

/-- What asking for the next byte answers. -/
inductive NextByte where
  | byte (value : UInt8)
  | endOfData
  | fault (detail : String)
deriving DecidableEq, Repr

/-- How a request for several bytes ended. -/
inductive Supply where
  | full
  /-- The data ended first. -/
  | short
  | fault (detail : String)
deriving DecidableEq, Repr

/-- The bytes a request got, however it ended, and the source behind them. -/
structure Taken where
  bytes : List UInt8
  supply : Supply
  rest : Source
deriving DecidableEq, Repr

namespace Source

/-! ## 1. Reading -/

/-- A source without faults. -/
def ofBytes (bytes : List UInt8) : Source where
  pending := bytes.map .byte

/-- The next byte among pending answers, when `consumed` bytes have gone before. -/
def nextOf (consumed : Nat) : List ReadEvent → NextByte × Source
  | [] => (.endOfData, { pending := [], consumed })
  | .byte value :: rest => (.byte value, { pending := rest, consumed := consumed + 1 })
  | .retry :: rest => nextOf consumed rest
  | .fault detail :: rest => (.fault detail, { pending := rest, consumed })

/-- The next byte. Interrupted calls are passed over; a failed one is reported and is over then. -/
def next (source : Source) : NextByte × Source := nextOf source.consumed source.pending

/-- Takes bytes on top of those taken before, the latest in front. -/
def takeOnto (taken : List UInt8) : Nat → Source → Taken
  | 0, source => { bytes := taken.reverse, supply := .full, rest := source }
  | count + 1, source =>
    match source.next with
    | (.byte value, rest) => takeOnto (value :: taken) count rest
    | (.endOfData, rest) => { bytes := taken.reverse, supply := .short, rest }
    | (.fault detail, rest) => { bytes := taken.reverse, supply := .fault detail, rest }

/-- Takes `count` bytes, or as many as there are before the end or a fault. -/
def take (source : Source) (count : Nat) : Taken := takeOnto [] count source

/-! ## 2. Reading uses a source up -/

theorem nextOf_le (consumed : Nat) (pending : List ReadEvent) :
    (nextOf consumed pending).2.pending.length ≤ pending.length := by
  induction pending with
  | nil => simp [nextOf]
  | cons event rest ih =>
    cases event with
    | byte value => simp [nextOf]
    | retry => exact Nat.le_succ_of_le ih
    | fault detail => simp [nextOf]

theorem next_le (source : Source) :
    source.next.2.pending.length ≤ source.pending.length :=
  nextOf_le source.consumed source.pending

theorem nextOf_byte_lt {consumed : Nat} {pending : List ReadEvent} {value : UInt8}
    {rest : Source} (h : nextOf consumed pending = (.byte value, rest)) :
    rest.pending.length < pending.length := by
  induction pending with
  | nil => simp [nextOf] at h
  | cons event others ih =>
    cases event with
    | byte b =>
      simp only [nextOf, Prod.mk.injEq] at h
      rw [← h.2]
      simp
    | retry => exact Nat.lt_succ_of_lt (ih h)
    | fault detail => simp [nextOf] at h

/-- A byte handed out is no longer pending. -/
theorem next_byte_lt {source : Source} {value : UInt8} {rest : Source}
    (h : source.next = (.byte value, rest)) : rest.pending.length < source.pending.length :=
  nextOf_byte_lt h

theorem takeOnto_le (taken : List UInt8) (count : Nat) (source : Source) :
    (takeOnto taken count source).rest.pending.length ≤ source.pending.length := by
  induction count generalizing taken source with
  | zero => simp [takeOnto]
  | succ count ih =>
    have hle := source.next_le
    rw [takeOnto]
    split <;> rename_i h <;> rw [h] at hle
    · exact Nat.le_trans (ih _ _) hle
    · exact hle
    · exact hle

theorem take_le (source : Source) (count : Nat) :
    (source.take count).rest.pending.length ≤ source.pending.length :=
  takeOnto_le [] count source

/-- A request for at least one byte that was met in full has used the source up by some. -/
theorem take_full_lt {source : Source} {count : Nat} (hcount : 0 < count)
    (h : (source.take count).supply = .full) :
    (source.take count).rest.pending.length < source.pending.length := by
  obtain ⟨count, rfl⟩ : ∃ n, count = n + 1 := ⟨count - 1, by omega⟩
  rw [take, takeOnto] at h ⊢
  split <;> rename_i hnext <;> simp only [hnext] at h
  · exact Nat.lt_of_le_of_lt (takeOnto_le _ _ _) (next_byte_lt hnext)
  · exact absurd h (by simp)
  · exact absurd h (by simp)

end Source

end Disassembly
