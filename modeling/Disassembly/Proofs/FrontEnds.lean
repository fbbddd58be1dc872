import Disassembly.CommandLine.Program
import Disassembly.Proofs.ArgumentSpelling
import Disassembly.Proofs.Sessions
import Disassembly.Proofs.Written

/-!
# Three ways to a listing

A listing is made by a call (`disassemble`), in a session (`Session.play`) and by the program
(`CommandLine.run`). Each sets a disassembler up in its own way, and this file says that what they
set up is the same (`front_ends_agree`): the disassembler of the processor, with the labels and the
regions that were declared last.

* A processor that is registered is found by its name in letters of any case, has modes for all its
  opcodes and no opcode twice, so there is nothing to warn of (`Registry.warnings_of_mem`).
* The program finds the label text beside its input and the block text by its path
  (`CommandLine.withLabelFile_of_parses`, `CommandLine.withBlockFile_of_parses`), labels first
  (`CommandLine.prepare_eq`), and a text that does not parse is the cause it tells
  (`CommandLine.run_of_badLabels`, `CommandLine.run_of_badRegions`).
-/

namespace Disassembly

/-! ## 1. Registered processors -/

namespace Registry

theorem toLower_eq_iff (text other : String) :
    text.toLower = other.toLower ↔
      text.toList.map Char.toLower = other.toList.map Char.toLower := by
  show text.map Char.toLower = other.map Char.toLower ↔ _
  rw [← String.toList_inj, String.toList_map, String.toList_map]

variable {processor : Processor} (h : processor ∈ processors)
include h

/-- A registered processor is found by its name in letters of any case. -/
theorem find?_of_mem {name : String} (hname : name.toLower = processor.id.toLower) :
    find? name = some processor := by
  unfold find?
  simp only [hname, toLower_eq_iff]
  simp only [processors, List.mem_cons, List.not_mem_nil, or_false] at h ⊢
  rcases h with rfl | rfl | rfl | rfl
  · rfl
  · rfl
  · rfl
  · rfl

/-- No registered processor defines an opcode twice. -/
theorem collisions_of_mem : processor.table.collisions = [] := by
  simp only [processors, List.mem_cons, List.not_mem_nil, or_false] at h
  rcases h with rfl | rfl | rfl | rfl
  · decide +kernel
  · decide +kernel
  · decide +kernel
  · decide +kernel

theorem warnings_of_mem (options : Options) :
    CommandLine.warnings (.ofProcessor processor options) = "" := by
  have hcollisions : (Disassembler.ofProcessor processor options).instructions.table.collisions =
      [] := collisions_of_mem h
  rw [CommandLine.warnings, hcollisions]
  rfl

theorem forName_of_mem {name : String} (hname : name.toLower = processor.id.toLower)
    (options : Options) :
    Disassembler.forName name options = .ok (.ofProcessor processor options) := by
  rw [Disassembler.forName, find?_of_mem h hname]

theorem knowsModes_of_mem (options : Options) :
    (Disassembler.ofProcessor processor options).toDecoder.KnowsModes :=
  Decoder.knowsModes_of_wellFormed rfl (wellFormed_of_mem h)

end Registry

/-! ## 2. The program -/

namespace CommandLine

/-- What an input comes with: its bytes, the text in the label file beside it, if there is one, and
    the block file that is asked for, if one is, by its path and with its text. -/
structure Input where
  bytes : List UInt8
  labels : Option String := none
  blocks : Option (String × String) := none

/-- The files that an input in a file takes are there. -/
structure Input.LiesIn (input : Input) (files : String → Entry) (file : String) : Prop where
  bytes : files file = .file ⟨input.bytes.toArray⟩
  labels : ∀ text, input.labels = some text → files (labelPath file) = .file text.toUTF8
  noLabels : input.labels = none → (files (labelPath file)).isFile = false
  blocks : ∀ path text, input.blocks = some (path, text) →
    files (Path.beside file path) = .file text.toUTF8

theorem text_file (text : String) : (Entry.file text.toUTF8).text = .ok text := by
  rw [Entry.text, Text.fromUTF8?_toUTF8]

/-- What the program says to a definition file that does not parse. -/
def unparsed (what path : String) (error : Error) : Failure where
  message := "Failed to parse " ++ what ++ " file: " ++ path
  cause := some error.message

theorem define_file (what path text : String) (use : String → Except Error Disassembler) :
    define what path (.file text.toUTF8) use = (use text).mapError (unparsed what path) := by
  rw [define, text_file]
  rfl

/-- The disassembler with the labels of the file beside the input, if there is one. -/
def withLabelFile (files : String → Entry) (file : String) (d : Disassembler) :
    Except Failure Disassembler :=
  if (files (labelPath file)).isFile then
    define "label" (labelPath file) (files (labelPath file)) d.withLabels
  else .ok d

/-- The disassembler with the regions of the block file, if one is asked for. -/
def withBlockFile (files : String → Entry) (file : String) (d : Disassembler) :
    Option String → Except Failure Disassembler
  | some path =>
    define "block" (Path.beside file path) (files (Path.beside file path)) d.withRegions
  | none => .ok d

variable {files : String → Entry} {file : String} {input : Input} {d : Disassembler}

/-- The input is opened, then come the labels, then the regions. -/
theorem prepare_eq (h : input.LiesIn files file) (arguments : Arguments) (d : Disassembler) :
    prepare files arguments file d =
      (withLabelFile files file d).bind fun d =>
        (withBlockFile files file d arguments.regions).bind fun d =>
          .ok (d, .ofBytes input.bytes) := by
  have hopen : openInput file (files file) = .ok (.ofBytes input.bytes) := by
    rw [h.bytes]
    rfl
  unfold prepare withLabelFile
  rw [hopen]
  dsimp only
  cases (files (labelPath file)).isFile with
  | true => cases arguments.regions <;> rfl
  | false => cases arguments.regions <;> rfl

theorem prepare_of_files (h : input.LiesIn files file) {arguments : Arguments}
    {labelled prepared : Disassembler} (hlabels : withLabelFile files file d = .ok labelled)
    (hblocks : withBlockFile files file labelled arguments.regions = .ok prepared) :
    prepare files arguments file d = .ok (prepared, .ofBytes input.bytes) := by
  rw [prepare_eq h, hlabels]
  show (withBlockFile files file labelled arguments.regions).bind _ = _
  rw [hblocks]
  rfl

theorem prepare_of_labelFailure (h : input.LiesIn files file) {arguments : Arguments}
    {failure : Failure} (hlabels : withLabelFile files file d = .error failure) :
    prepare files arguments file d = .error failure := by
  rw [prepare_eq h, hlabels]
  rfl

theorem prepare_of_blockFailure (h : input.LiesIn files file) {arguments : Arguments}
    {labelled : Disassembler} {failure : Failure}
    (hlabels : withLabelFile files file d = .ok labelled)
    (hblocks : withBlockFile files file labelled arguments.regions = .error failure) :
    prepare files arguments file d = .error failure := by
  rw [prepare_eq h, hlabels]
  show (withBlockFile files file labelled arguments.regions).bind _ = _
  rw [hblocks]
  rfl

theorem withLabelFile_of_parses (h : input.LiesIn files file) {labels : LabelTable}
    (hlabels : declared LabelTable.parse d.labels input.labels = .ok labels) :
    withLabelFile files file d = .ok { d with labels } := by
  unfold withLabelFile
  cases htext : input.labels with
  | none =>
    rw [htext] at hlabels
    cases hlabels
    rw [h.noLabels htext]
    rfl
  | some text =>
    rw [htext] at hlabels
    have hparse : LabelTable.parse text = .ok labels := hlabels
    rw [h.labels text htext, define_file, Disassembler.withLabels, hparse]
    rfl

theorem withLabelFile_of_offence (h : input.LiesIn files file) {text : String} {offence : Offence}
    (htext : input.labels = some text) (hparse : LabelTable.parse text = .error offence) :
    withLabelFile files file d =
      .error (unparsed "label" (labelPath file) (.badLabels offence)) := by
  unfold withLabelFile
  rw [h.labels text htext, define_file, Disassembler.withLabels, hparse]
  rfl

theorem withBlockFile_of_parses (h : input.LiesIn files file) {regions : RegionTable}
    (hregions : declared RegionTable.parse d.regions (input.blocks.map Prod.snd) = .ok regions) :
    withBlockFile files file d (input.blocks.map Prod.fst) = .ok { d with regions } := by
  cases hblocks : input.blocks with
  | none =>
    rw [hblocks] at hregions
    cases hregions
    rfl
  | some blocks =>
    obtain ⟨path, text⟩ := blocks
    rw [hblocks] at hregions
    have hparse : RegionTable.parse text = .ok regions := hregions
    rw [Option.map_some, withBlockFile, h.blocks path text hblocks, define_file,
      Disassembler.withRegions, hparse]
    rfl

theorem withBlockFile_of_offence (h : input.LiesIn files file) {path text : String}
    {offence : Offence} (hblocks : input.blocks = some (path, text))
    (hparse : RegionTable.parse text = .error offence) :
    withBlockFile files file d (input.blocks.map Prod.fst) =
      .error (unparsed "block" (Path.beside file path) (.badRegions offence)) := by
  rw [hblocks, Option.map_some, withBlockFile, h.blocks path text hblocks, define_file,
    Disassembler.withRegions, hparse]
  rfl

/-- The arguments that ask for the listing of an input in a file. -/
def asking (name : String) (options : Options) (input : Input) (file : String) : Arguments where
  file := some file
  processor := name
  address := options.start
  regions := input.blocks.map Prod.fst
  listing := options.listing
  undocumented := options.undocumented
  showInvalid := options.showInvalid

/-- Every listing can be asked for, of whatever name the file is. -/
theorem exists_arguments (name : String) (options : Options) {input : Input} {file : String}
    (hfile : file ≠ "") (hblocks : ∀ text, input.blocks ≠ some ("", text)) :
    ∃ arguments, Arguments.parse? arguments = some (asking name options input file) := by
  refine ⟨_, Arguments.parse?_spell (asking name options input file) ?_ ?_ (Or.inl rfl)⟩
  · exact fun heq => hfile (Option.some.inj heq)
  · intro heq
    obtain ⟨⟨path, text⟩, hsome, rfl⟩ := Option.map_eq_some_iff.mp heq
    exact hblocks text hsome

section Run

variable {processor : Processor} (hregistered : processor ∈ Registry.processors) {name : String}
  (hname : name.toLower = processor.id.toLower) {options : Options} {arguments : List String}
  (harguments : Arguments.parse? arguments = some (asking name options input file))
include hregistered hname harguments

/-- Where the files cannot be used the program says so, and there is nothing else to say. -/
theorem run_of_failure {failure : Failure}
    (h : prepare files (asking name options input file) file (.ofProcessor processor options) =
      .error failure) : run files arguments = .done 1 "" failure.text := by
  have hsetup : Disassembler.forName (asking name options input file).processor
      (asking name options input file).options = .ok (.ofProcessor processor options) :=
    Registry.forName_of_mem hregistered hname options
  rw [run, harguments]
  show disassembleFile files (asking name options input file) file = _
  rw [disassembleFile, hsetup]
  dsimp only
  rw [h]
  dsimp only
  rw [Registry.warnings_of_mem hregistered, String.empty_append]

/-- Where they can be, the program writes the listing and has nothing to say. -/
theorem run_of_prepared {labels : LabelTable} {regions : RegionTable} {bytes : List UInt8}
    (h : prepare files (asking name options input file) file (.ofProcessor processor options) =
      .ok ({ Disassembler.ofProcessor processor options with labels, regions }, .ofBytes bytes)) :
    let d : Disassembler := { Disassembler.ofProcessor processor options with labels, regions }
    run files arguments = .done 0 (d.run (.ofBytes bytes)).text "" := by
  intro d
  have hknows : d.toDecoder.KnowsModes := Registry.knowsModes_of_mem hregistered options
  have hwarnings : warnings d = "" := Registry.warnings_of_mem hregistered options
  obtain ⟨summary, hsummary⟩ := Disassembler.exists_summary hknows bytes
  have hsetup : Disassembler.forName (asking name options input file).processor
      (asking name options input file).options = .ok (.ofProcessor processor options) :=
    Registry.forName_of_mem hregistered hname options
  rw [run, harguments]
  show disassembleFile files (asking name options input file) file = _
  rw [disassembleFile, hsetup]
  dsimp only
  rw [h]
  dsimp only
  rw [show (d.run (.ofBytes bytes)).result = _ from hsummary, hwarnings]

/-- **Where the texts parse the program writes the listing** and nothing else. -/
theorem run_of_parses (h : input.LiesIn files file) {labels : LabelTable} {regions : RegionTable}
    (hlabels : declared LabelTable.parse .empty input.labels = .ok labels)
    (hregions : declared RegionTable.parse [] (input.blocks.map Prod.snd) = .ok regions) :
    let d : Disassembler := { Disassembler.ofProcessor processor options with labels, regions }
    run files arguments = .done 0 (d.run (.ofBytes input.bytes)).text "" := by
  apply run_of_prepared hregistered hname harguments
  apply prepare_of_files h
  · exact withLabelFile_of_parses h hlabels
  · exact withBlockFile_of_parses h hregions

/-- **A label text that does not parse is told, and nothing is written**, whatever the block text
    is. -/
theorem run_of_badLabels (h : input.LiesIn files file) {text : String} {offence : Offence}
    (htext : input.labels = some text) (hparse : LabelTable.parse text = .error offence) :
    run files arguments =
      .done 1 "" (unparsed "label" (labelPath file) (.badLabels offence)).text := by
  apply run_of_failure hregistered hname harguments
  exact prepare_of_labelFailure h (withLabelFile_of_offence h htext hparse)

/-- **So is a block text that does not parse**, behind labels that do. -/
theorem run_of_badRegions (h : input.LiesIn files file) {labels : LabelTable} {path text : String}
    {offence : Offence} (hlabels : declared LabelTable.parse .empty input.labels = .ok labels)
    (hblocks : input.blocks = some (path, text))
    (hparse : RegionTable.parse text = .error offence) :
    run files arguments =
      .done 1 "" (unparsed "block" (Path.beside file path) (.badRegions offence)).text := by
  apply run_of_failure hregistered hname harguments
  apply prepare_of_blockFailure h
  · exact withLabelFile_of_parses h hlabels
  · exact withBlockFile_of_offence h hblocks hparse

end Run

end CommandLine

/-! ## 3. Agreement -/

open CommandLine

/-- The call runs the disassembler of the processor as it is. -/
theorem disassemble_of_mem {processor : Processor} (h : processor ∈ Registry.processors)
    {name : String} (hname : name.toLower = processor.id.toLower) (options : Options)
    (bytes : List UInt8) :
    disassemble name bytes options =
      .ok ((Disassembler.ofProcessor processor options).run (.ofBytes bytes)).text := by
  obtain ⟨summary, hsummary⟩ :=
    Disassembler.exists_summary (Registry.knowsModes_of_mem h options) bytes
  unfold disassemble
  rw [Registry.forName_of_mem h hname]
  dsimp only [bind, Except.bind]
  rw [hsummary]
  rfl

/-- **Whichever way a listing is asked for, it is that of one run.** A registered processor is
    found by its name in letters of any case, and then

    * the call answers the listing without labels and regions;
    * a session answers, behind whatever steps that succeed, the listing with the labels and the
      regions that were set last, where it ended and whether that was inside a unit;
    * the program, whose arguments can be spelled for every file, ends well with that listing as
      its output and nothing said besides.

    A text that does not parse ends a session with the message that the program tells as the cause
    of its failure, labels before regions, and neither shows anything of a listing. -/
theorem front_ends_agree (processor : Processor) (hregistered : processor ∈ Registry.processors)
    (name : String) (hname : name.toLower = processor.id.toLower) (options : Options) :
    let plain := Disassembler.ofProcessor processor options
    Disassembler.forName name options = .ok plain ∧
    (∀ bytes, disassemble name bytes options = .ok (plain.run (.ofBytes bytes)).text) ∧
    (∀ steps : List Session.Step, (∀ step ∈ steps, step.Parses) →
      ∃ answers labels regions, Session.Succeed steps answers ∧
        declared LabelTable.parse .empty (Session.labelTexts steps).getLast? = .ok labels ∧
        declared RegionTable.parse [] (Session.regionTexts steps).getLast? = .ok regions ∧
        let d : Disassembler := { plain with labels, regions }
        (∀ bytes more, ∃ summary, (d.run (.ofBytes bytes)).result = .ok summary ∧
          Session.play plain (steps ++ .run bytes :: more) =
            answers ++ .listing {
              text := (d.run (.ofBytes bytes)).text
              finalAddress := summary.finalAddress
              truncated := summary.outcome = .truncated } :: Session.play d more) ∧
        (∀ text offence more, LabelTable.parse text = .error offence →
          Session.play plain (steps ++ .labels text :: more) =
            answers ++ [.failed (.badLabels offence)]) ∧
        ∀ text offence more, RegionTable.parse text = .error offence →
          Session.play plain (steps ++ .regions text :: more) =
            answers ++ [.failed (.badRegions offence)]) ∧
    ∀ (input : Input) (file : String),
      (file ≠ "" → (∀ text, input.blocks ≠ some ("", text)) →
        ∃ arguments, Arguments.parse? arguments = some (asking name options input file)) ∧
      ∀ files arguments, Arguments.parse? arguments = some (asking name options input file) →
        input.LiesIn files file →
        (∀ labels regions, declared LabelTable.parse .empty input.labels = .ok labels →
          declared RegionTable.parse [] (input.blocks.map Prod.snd) = .ok regions →
          let d : Disassembler := { plain with labels, regions }
          run files arguments = .done 0 (d.run (.ofBytes input.bytes)).text "") ∧
        (∀ text offence, input.labels = some text → LabelTable.parse text = .error offence →
          run files arguments =
            .done 1 "" (unparsed "label" (labelPath file) (.badLabels offence)).text) ∧
        ∀ labels path text offence,
          declared LabelTable.parse .empty input.labels = .ok labels →
          input.blocks = some (path, text) → RegionTable.parse text = .error offence →
          run files arguments =
            .done 1 "" (unparsed "block" (Path.beside file path) (.badRegions offence)).text := by
  intro plain
  have hknows : plain.toDecoder.KnowsModes := Registry.knowsModes_of_mem hregistered options
  refine ⟨Registry.forName_of_mem hregistered hname options,
    disassemble_of_mem hregistered hname options, fun steps hparse => ?_, fun input file => ?_⟩
  · obtain ⟨answers, labels, regions, hdone, hlabels, hregions, hplay⟩ :=
      Session.play_append hknows hparse
    refine ⟨answers, labels, regions, hdone, hlabels, hregions, fun bytes more => ?_,
      fun text offence more htext => ?_, fun text offence more htext => ?_⟩
    · obtain ⟨summary, hsummary⟩ := Disassembler.exists_summary
        (show Decoder.KnowsModes { plain with labels, regions }.toDecoder from hknows) bytes
      exact ⟨summary, hsummary, (hplay _).trans (congrArg _ (Session.play_run hsummary more))⟩
    · exact (hplay _).trans (congrArg _ (Session.play_badLabels htext more))
    · exact (hplay _).trans (congrArg _ (Session.play_badRegions htext more))
  · refine ⟨exists_arguments name options, fun files arguments harguments hfiles => ⟨?_, ?_, ?_⟩⟩
    · exact fun labels regions => run_of_parses hregistered hname harguments hfiles
    · exact fun text offence => run_of_badLabels hregistered hname harguments hfiles
    · exact fun labels path text offence => run_of_badRegions hregistered hname harguments hfiles

/-- A program with labels, and a string that the data cuts short. -/
def greeting : CommandLine.Input where
  bytes := [0x4C, 0x00, 0x10, 0x48, 0x69]
  labels := some "start,1000\n"
  blocks := some ("rom.blk", "1003,1005,s\n")

/-- Its files. -/
def greetingFiles : CommandLine.FileTree :=
  [(["rom.bin"], .file ⟨#[0x4C, 0x00, 0x10, 0x48, 0x69]⟩),
   (["rom.lbl"], .file "start,1000\n".toUTF8),
   (["rom.blk"], .file "1003,1005,s\n".toUTF8)]

/-- A 65C02 by its name in capitals, in a session that has run before all is set, and by the
    program. -/
theorem front_ends_agree_greeting :
    let plain := Disassembler.ofProcessor Cmos65C02.processor { start := 0x1000 }
    let d : Disassembler :=
      { plain with labels := .ofList [⟨"start", 0x1000⟩], regions := [⟨0x1003, 0x1005, .string⟩] }
    let steps : List Session.Step :=
      [.labels "start,1000\n", .run [0x4C], .regions "1003,1005,s\n"]
    let arguments := ["rom.bin", "-c65C02", "--address", "4096", "-b", "rom.blk"]
    Cmos65C02.processor ∈ Registry.processors ∧
    "65C02".toLower = Cmos65C02.processor.id.toLower ∧ (∀ step ∈ steps, step.Parses) ∧
    CommandLine.Arguments.parse? arguments =
      some (CommandLine.asking "65C02" { start := 0x1000 } greeting "rom.bin") ∧
    greeting.LiesIn greetingFiles.entry "rom.bin" ∧
    (∃ answers, Session.Succeed steps answers ∧
      Session.play plain (steps ++ [.run greeting.bytes]) =
        answers ++ [.listing {
          text := (d.run (.ofBytes greeting.bytes)).text
          finalAddress := 0x1003
          truncated := true }]) ∧
    CommandLine.run greetingFiles.entry arguments =
      .done 0 (d.run (.ofBytes greeting.bytes)).text "" := by
  intro plain d steps arguments
  have hregistered : Cmos65C02.processor ∈ Registry.processors := by
    simp only [Registry.processors, List.mem_cons, true_or, or_true]
  have hname : "65C02".toLower = Cmos65C02.processor.id.toLower :=
    (Registry.toLower_eq_iff _ _).mpr (by decide)
  have hlabels : LabelTable.parse "start,1000\n" = .ok (.ofList [⟨"start", 0x1000⟩]) := rfl
  have hregions : RegionTable.parse "1003,1005,s\n" = .ok [⟨0x1003, 0x1005, .string⟩] := rfl
  have hsteps : ∀ step ∈ steps, step.Parses := by
    intro step hstep
    simp only [steps, List.mem_cons, List.not_mem_nil, or_false] at hstep
    rcases hstep with rfl | rfl | rfl
    · exact ⟨_, hlabels⟩
    · trivial
    · exact ⟨_, hregions⟩
  have harguments : CommandLine.Arguments.parse? arguments =
      some (CommandLine.asking "65C02" { start := 0x1000 } greeting "rom.bin") := by
    decide +kernel
  have hfiles : greeting.LiesIn greetingFiles.entry "rom.bin" := by
    constructor
    case bytes => rfl
    case labels =>
      intro text htext
      cases htext
      rfl
    case noLabels =>
      intro hnone
      cases hnone
    case blocks =>
      intro path text hblocks
      cases hblocks
      rfl
  have hsummary : (d.run (.ofBytes greeting.bytes)).result =
      .ok { outcome := .truncated, finalAddress := 0x1003, lines := 2 } := by
    have htrace : d.trace (.ofBytes greeting.bytes) =
        { units := [⟨0x1000, [0x4C, 0x00, 0x10], .instruction "jmp" "start"⟩]
          ending := .truncated (some (DataKind.string.line 0x1003 [0x48, 0x69]))
          cursor := 0x1003 } := by decide +kernel
    rw [Disassembler.result_run, htrace]
    rfl
  obtain ⟨-, -, hsession, hprogram⟩ :=
    front_ends_agree Cmos65C02.processor hregistered "65C02" hname { start := 0x1000 }
  obtain ⟨answers, labels, regions, hdone, hlast, hlastRegions, hruns, -⟩ := hsession steps hsteps
  cases hlabels.symm.trans hlast
  cases hregions.symm.trans hlastRegions
  obtain ⟨summary, hresult, hplay⟩ := hruns greeting.bytes []
  cases hsummary.symm.trans hresult
  obtain ⟨-, hasked⟩ := hprogram greeting "rom.bin"
  obtain ⟨hrun, -, -⟩ := hasked greetingFiles.entry arguments harguments hfiles
  exact ⟨hregistered, hname, hsteps, harguments, hfiles, ⟨answers, hdone, hplay⟩,
    hrun _ _ hlabels hregions⟩

end Disassembly
