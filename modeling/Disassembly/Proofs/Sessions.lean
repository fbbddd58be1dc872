import Disassembly.Proofs.KnownModes
import Disassembly.Session

/-!
# Sessions

A session takes one step after another, and this file says what of the steps it remembers. Where
the modes are known a run over bytes succeeds (`Disassembler.exists_summary`), so only a text that
does not parse ends a session (`play_badLabels`, `play_badRegions`). Behind steps that all succeed
it is a session of the disassembler with the labels of the last label text and the regions of the
last block text, in whatever order these came and whatever was run between them (`play_append`).
-/

namespace Disassembly

/-! ## 1. Runs over bytes -/

/-- **A run over bytes succeeds** where the modes are known. -/
theorem Disassembler.exists_summary {d : Disassembler} (hknows : d.toDecoder.KnowsModes)
    (bytes : List UInt8) : ∃ summary, (d.run (.ofBytes bytes)).result = .ok summary := by
  cases hresult : (d.run (.ofBytes bytes)).result with
  | ok summary => exact ⟨summary, rfl⟩
  | error fault =>
    obtain ⟨detail, -, hahead⟩ := faultAhead_of_error hknows hresult
    rw [Source.faultAhead_ofBytes] at hahead
    cases hahead

/-! ## 2. Declarations -/

/-- What a text declares; where there is none, what there was before. -/
def declared (parse : String → Except Offence α) (before : α) : Option String → Except Offence α
  | none => .ok before
  | some text => parse text

/-- Of several texts the last one counts. -/
theorem declared_getLast?_cons {parse : String → Except Offence α} {before middle : α}
    {text : String} (h : parse text = .ok middle) (texts : List String) :
    declared parse before (text :: texts).getLast? = declared parse middle texts.getLast? := by
  rw [List.getLast?_cons]
  cases texts.getLast? with
  | none => exact h
  | some last => rfl

/-! ## 3. Sessions -/

namespace Session

/-- A step that declares something declares it in a text that parses. -/
def Step.Parses : Step → Prop
  | labels text => ∃ table, LabelTable.parse text = .ok table
  | regions text => ∃ table, RegionTable.parse text = .ok table
  | run _ => True

/-- The label texts among steps. -/
def labelTexts : List Step → List String
  | [] => []
  | .labels text :: steps => text :: labelTexts steps
  | _ :: steps => labelTexts steps

/-- The block texts among steps. -/
def regionTexts : List Step → List String
  | [] => []
  | .regions text :: steps => text :: regionTexts steps
  | _ :: steps => regionTexts steps

/-- What a session shows of a run that came to a summary. -/
def shown (d : Disassembler) (bytes : List UInt8) (summary : Summary) : Listing where
  text := (d.run (.ofBytes bytes)).text
  finalAddress := summary.finalAddress
  truncated := summary.outcome = .truncated

variable {d : Disassembler}

theorem play_run {bytes : List UInt8} {summary : Summary}
    (h : (d.run (.ofBytes bytes)).result = .ok summary) (more : List Step) :
    play d (.run bytes :: more) = .listing (shown d bytes summary) :: play d more := by
  simp only [play, step, listingOf, h]
  rfl

theorem play_labels {text : String} {labels : LabelTable} (h : LabelTable.parse text = .ok labels)
    (more : List Step) :
    play d (.labels text :: more) = .done :: play { d with labels } more := by
  simp only [play, step, Disassembler.withLabels, h]

theorem play_regions {text : String} {regions : RegionTable}
    (h : RegionTable.parse text = .ok regions) (more : List Step) :
    play d (.regions text :: more) = .done :: play { d with regions } more := by
  simp only [play, step, Disassembler.withRegions, h]

theorem play_badLabels {text : String} {offence : Offence}
    (h : LabelTable.parse text = .error offence) (more : List Step) :
    play d (.labels text :: more) = [.failed (.badLabels offence)] := by
  simp only [play, step, Disassembler.withLabels, h]

theorem play_badRegions {text : String} {offence : Offence}
    (h : RegionTable.parse text = .error offence) (more : List Step) :
    play d (.regions text :: more) = [.failed (.badRegions offence)] := by
  simp only [play, step, Disassembler.withRegions, h]

/-- The answers to steps that all succeed. -/
structure Succeed (steps : List Step) (answers : List Answer) : Prop where
  length : answers.length = steps.length
  done : ∀ answer ∈ answers, ∀ error, answer ≠ .failed error

theorem Succeed.cons {steps : List Step} {answers : List Answer} (h : Succeed steps answers)
    (first : Step) {answer : Answer} (hanswer : ∀ error, answer ≠ .failed error) :
    Succeed (first :: steps) (answer :: answers) where
  length := congrArg (· + 1) h.length
  done := by
    intro other hother
    rcases List.mem_cons.mp hother with rfl | hother
    · exact hanswer
    · exact h.done other hother

/-- **A session remembers what was declared last**, and of its steps nothing else. -/
theorem play_append {steps : List Step} (hknows : d.toDecoder.KnowsModes)
    (hparse : ∀ step ∈ steps, step.Parses) :
    ∃ answers labels regions, Succeed steps answers ∧
      declared LabelTable.parse d.labels (labelTexts steps).getLast? = .ok labels ∧
      declared RegionTable.parse d.regions (regionTexts steps).getLast? = .ok regions ∧
      ∀ more, play d (steps ++ more) = answers ++ play { d with labels, regions } more := by
  induction steps generalizing d with
  | nil =>
    exact ⟨[], d.labels, d.regions, ⟨rfl, fun _ hanswer => (List.not_mem_nil hanswer).elim⟩, rfl,
      rfl, fun more => rfl⟩
  | cons first steps ih =>
    have hrest : ∀ step ∈ steps, step.Parses :=
      fun step hstep => hparse step (List.mem_cons_of_mem _ hstep)
    have hfirst : first.Parses := hparse first List.mem_cons_self
    cases first with
    | labels text =>
      obtain ⟨table, htable⟩ := hfirst
      obtain ⟨answers, labels, regions, hdone, hlabels, hregions, hplay⟩ :=
        ih (show Decoder.KnowsModes { d with labels := table }.toDecoder from hknows) hrest
      refine ⟨.done :: answers, labels, regions, hdone.cons _ nofun, ?_, hregions, fun more => ?_⟩
      · exact (declared_getLast?_cons htable _).trans hlabels
      · rw [List.cons_append, play_labels htable, hplay]
        rfl
    | regions text =>
      obtain ⟨table, htable⟩ := hfirst
      obtain ⟨answers, labels, regions, hdone, hlabels, hregions, hplay⟩ :=
        ih (show Decoder.KnowsModes { d with regions := table }.toDecoder from hknows) hrest
      refine ⟨.done :: answers, labels, regions, hdone.cons _ nofun, hlabels, ?_, fun more => ?_⟩
      · exact (declared_getLast?_cons htable _).trans hregions
      · rw [List.cons_append, play_regions htable, hplay]
        rfl
    | run bytes =>
      obtain ⟨summary, hsummary⟩ := Disassembler.exists_summary hknows bytes
      obtain ⟨answers, labels, regions, hdone, hlabels, hregions, hplay⟩ := ih hknows hrest
      refine ⟨.listing (shown d bytes summary) :: answers, labels, regions, hdone.cons _ nofun,
        hlabels, hregions, fun more => ?_⟩
      rw [List.cons_append, play_run hsummary, hplay]
      rfl

end Session

end Disassembly
