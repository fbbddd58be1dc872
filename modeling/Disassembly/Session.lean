import Disassembly.Setup

/-!
# Sessions

A disassembler kept at hand: labels and regions may be set between runs, new ones in place of the
old, and every run shows what was set last. A definition text that does not parse ends the session.
-/

namespace Disassembly.Session

/-- What can be asked of a session. -/
inductive Step where
  | labels (text : String)
  | regions (text : String)
  | run (bytes : List UInt8)
deriving DecidableEq, Repr

/-- What a session shows of a run. -/
structure Listing where
  text : String
  finalAddress : Address
  /-- Whether the input ended inside a unit. -/
  truncated : Bool
deriving DecidableEq, Repr

/-- What a step answers. -/
inductive Answer where
  | done
  | listing (listing : Listing)
  | failed (error : Error)
deriving DecidableEq, Repr

/-- Runs the disassembler over some bytes. -/
def listingOf (d : Disassembler) (bytes : List UInt8) : Except Error Listing :=
  let report := d.run (.ofBytes bytes)
  match report.result with
  | .ok summary =>
    .ok { text := report.text
          finalAddress := summary.finalAddress
          truncated := summary.outcome = .truncated }
  | .error fault => .error (.fault fault)

/-- Takes a step: what it answers, and the disassembler to go on with, if there is one. -/
def step (d : Disassembler) : Step → Answer × Option Disassembler
  | .labels text =>
    match d.withLabels text with
    | .ok d => (.done, some d)
    | .error error => (.failed error, none)
  | .regions text =>
    match d.withRegions text with
    | .ok d => (.done, some d)
    | .error error => (.failed error, none)
  | .run bytes =>
    match listingOf d bytes with
    | .ok listing => (.listing listing, some d)
    | .error error => (.failed error, some d)

/-- Takes steps one after another. Those behind one that ended the session have no answer. -/
def play (d : Disassembler) : List Step → List Answer
  | [] => []
  | first :: others =>
    match step d first with
    | (answer, some d) => answer :: play d others
    | (answer, none) => [answer]

end Disassembly.Session
