/-!
# Sinks

Where a listing is written to. A sink may have room for so many bytes and no more; a write that
does not fit leaves as much as does and fails, and nothing is written after a failure
(`writeAll`). A write that fits exactly is no failure.
-/

namespace Disassembly

/-- What has been written, and how many bytes there is still room for. -/
structure Sink where
  held : ByteArray := .empty
  /-- The room that is left, where there is a limit. -/
  room : Option Nat := none
  /-- What the device says when it is full. -/
  refusal : String := "sink full"

namespace Sink

/-- A sink with room for so many bytes. -/
def limited (room : Nat) : Sink := { room := some room }

/-- Whether so many bytes more would fit. -/
def fits (sink : Sink) (size : Nat) : Bool := sink.room.all (size ≤ ·)

/-- Writes bytes that fit, or those of them that do. -/
def write (sink : Sink) (bytes : ByteArray) : Sink :=
  let written := match sink.room with
    | some room => bytes.extract 0 room
    | none => bytes
  { sink with
    held := sink.held ++ written
    room := sink.room.map (· - bytes.size) }

/-- Writes texts one after another up to the first that does not fit, and answers what the sink
    said to that one. -/
def writeAll (sink : Sink) : List String → Sink × Option String
  | [] => (sink, none)
  | text :: others =>
    let bytes := text.toUTF8
    if sink.fits bytes.size then (sink.write bytes).writeAll others
    else (sink.write bytes, some sink.refusal)

end Sink

end Disassembly
