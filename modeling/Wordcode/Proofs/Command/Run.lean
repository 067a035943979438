import Wordcode.Proofs.Command.FileSystem
import Wordcode.Proofs.Outcome
/-!
# Proofs.Command.Run — a run changes files last

A run reads the module and its memory, transforms them, and only then prints and writes (`ran_runOn`).  So one that
cannot read or transform leaves the world as it is, and one that ends well has written what comes of the files as they
were before it, whatever paths lead to the same place (`runOn_changes_files_last`).  It ends well exactly if it can
read, transform and write (`exists_runOn_eq_ok_iff`).
-/
namespace Wordcode.Command

/-- The text of a file. -/
def Contents.text? : Contents → Option String
  | .bytes data => decodeUtf8? data
  | _ => none

/-- The bytes of a file that may be missing. -/
def Contents.data? : Contents → Option (Option (List UInt8))
  | .bytes data => some (some data)
  | .missing => some none
  | .unreadable => none

/-- What is printed in front of everything that is written. -/
def Arguments.dump (args : Arguments) (a : Artifacts) : String := if args.dumpBytecode then a.disassembly ++ "\n" else ""

/-- What is printed behind everything that is written. -/
def loaderText (a : Artifacts) : String := a.bindings.prelude ++ "\n" ++ (Text.trimEnd a.bindings.envEntries ++ "\n")

/-! ## Steps -/

section
variable {α β : Type} {x : ExceptT Failure (StateM World) α} {f : α → ExceptT Failure (StateM World) β} {w w' : World}

theorem run_bind_ok {a : α} (h : x.run w = (.ok a, w')) : (x >>= f).run w = (f a).run w' := by
  have hbind : (x >>= f).run w = ExceptT.bindCont f (x.run w).1 (x.run w).2 := rfl
  rw [hbind, h]
  rfl

theorem run_bind_error {e : Failure} (h : x.run w = (.error e, w')) : (x >>= f).run w = (.error e, w') := by
  have hbind : (x >>= f).run w = ExceptT.bindCont f (x.run w).1 (x.run w).2 := rfl
  rw [hbind, h]
  rfl

end

theorem run_read (path : String) (w : World) :
    (World.actions.read path : ExceptT Failure (StateM World) Contents).run w = (.ok (w.files.read path), w) := rfl

theorem run_write (path : String) (data : List UInt8) (w : World) :
    (World.actions.write path data : ExceptT Failure (StateM World) Bool).run w =
      match w.files.write? path data with
      | some files => (.ok true, { w with files })
      | none => (.ok false, w) := by
  show (Except.ok (World.write path data w).1, (World.write path data w).2) = _
  unfold World.write
  rcases w.files.write? path data with _ | files <;> rfl

theorem run_print (text : String) (w : World) :
    (World.actions.print text : ExceptT Failure (StateM World) Unit).run w = (.ok (), ⟨w.files, w.stdout ++ text⟩) := rfl

theorem run_readText (path : String) (w : World) :
    (readText World.actions path).run w =
      (match (w.files.read path).text? with | some text => .ok text | none => .error (.read path), w) := by
  rw [readText, run_bind_ok (run_read path w)]
  rcases w.files.read path with data | _ | _
  · unfold Contents.text?
    dsimp only
    rcases decodeUtf8? data with _ | text <;> rfl
  · rfl
  · rfl

theorem run_readData (path : String) (w : World) :
    (readData World.actions path).run w =
      (match (w.files.read path).data? with | some data => .ok data | none => .error (.read path), w) := by
  rw [readData, run_bind_ok (run_read path w)]
  rcases w.files.read path with data | _ | _ <;> rfl

theorem run_writeData (path : String) (data : List UInt8) (w : World) :
    (writeData World.actions path data).run w =
      match w.files.write? path data with
      | some files => (.ok (), { w with files })
      | none => (.error (.write path), w) := by
  have hwrite := run_write path data w
  rcases hw : w.files.write? path data with _ | files <;> rw [hw] at hwrite <;>
    rw [writeData, run_bind_ok hwrite] <;> rfl

theorem run_reports : ∀ (ds : List Diagnostic) (w : World),
    (ds.forM fun d => (World.actions.report d : ExceptT Failure (StateM World) Unit)).run w = (.ok (), w)
  | [], _ => rfl
  | d :: ds, w => by
    have hreport : (World.actions.report d : ExceptT Failure (StateM World) Unit).run w = (.ok (), w) := rfl
    exact (run_bind_ok hreport).trans (run_reports ds w)

/-! ## A whole run -/

/-- What the input and the memory of a run hold. -/
structure Inputs (files : FileSystem) (args : Arguments) (text : String) (data : Option (List UInt8)) : Prop where
  text : (files.read args.input).text? = some text
  data : (files.read args.memoryInput).data? = some data

/-- What the transform makes of the files in front of a run. -/
def Makes (files : FileSystem) (args : Arguments) (a : Artifacts) : Prop :=
  ∃ text data, Inputs files args text data ∧ transform text (data.map args.staticMemory) args.options = .ok a

/-- **Everything that a run can end with**: the world is as it was up to the transform, then the listing is printed, and
the files are written one after the other. -/
inductive Ran (files : FileSystem) (args : Arguments) : Except Failure Unit × World → Prop
  | inputUnread (h : (files.read args.input).text? = none) : Ran files args (.error (.read args.input), ⟨files, ""⟩)
  | memoryUnread {text : String} (ht : (files.read args.input).text? = some text)
      (h : (files.read args.memoryInput).data? = none) : Ran files args (.error (.read args.memoryInput), ⟨files, ""⟩)
  | refused {text : String} {data : Option (List UInt8)} {f : Fault} (hi : Inputs files args text data)
      (h : transform text (data.map args.staticMemory) args.options = .error f) :
      Ran files args (.error (.transform f.code), ⟨files, ""⟩)
  | moduleUnwritten {a : Artifacts} (ha : Makes files args a)
      (h : files.write? args.output (encodeUtf8 a.moduleText) = none) :
      Ran files args (.error (.write args.output), ⟨files, args.dump a⟩)
  | memoryUnwritten {a : Artifacts} {files₁ : FileSystem} (ha : Makes files args a)
      (h₁ : files.write? args.output (encodeUtf8 a.moduleText) = some files₁)
      (h : files₁.write? args.memoryOutput a.memory = none) :
      Ran files args (.error (.write args.memoryOutput), ⟨files₁, args.dump a⟩)
  | done {a : Artifacts} {files₁ files₂ : FileSystem} (ha : Makes files args a)
      (h₁ : files.write? args.output (encodeUtf8 a.moduleText) = some files₁)
      (h₂ : files₁.write? args.memoryOutput a.memory = some files₂) :
      Ran files args (.ok (), ⟨files₂, args.dump a ++ loaderText a⟩)

theorem ran_deliver {files : FileSystem} {args : Arguments} {a : Artifacts} (ha : Makes files args a) :
    Ran files args ((deliver World.actions args a).run ⟨files, ""⟩) := by
  have hstart : (deliver World.actions args a).run ⟨files, ""⟩ =
      (do
        writeData World.actions args.output (encodeUtf8 a.moduleText)
        writeData World.actions args.memoryOutput a.memory
        World.actions.print (a.bindings.prelude ++ "\n")
        World.actions.print (Text.trimEnd a.bindings.envEntries ++ "\n") :
          ExceptT Failure (StateM World) Unit).run ⟨files, args.dump a⟩ := by
    unfold deliver Arguments.dump
    by_cases hd : args.dumpBytecode = true
    · simp only [if_pos hd]
      rw [run_bind_ok (run_print _ _), String.empty_append]
    · simp only [if_neg hd]
  rw [hstart]
  have hmodule := run_writeData args.output (encodeUtf8 a.moduleText) ⟨files, args.dump a⟩
  rcases h₁ : files.write? args.output (encodeUtf8 a.moduleText) with _ | files₁ <;> rw [h₁] at hmodule
  · rw [run_bind_error hmodule]
    exact .moduleUnwritten ha h₁
  rw [run_bind_ok hmodule]
  have hmemory := run_writeData args.memoryOutput a.memory ⟨files₁, args.dump a⟩
  rcases h₂ : files₁.write? args.memoryOutput a.memory with _ | files₂ <;> rw [h₂] at hmemory
  · rw [run_bind_error hmemory]
    exact .memoryUnwritten ha h₁ h₂
  rw [run_bind_ok hmemory, run_bind_ok (run_print _ _), run_print, String.append_assoc]
  exact .done ha h₁ h₂

/-- **A run ends as the files in front of it make it end.** -/
theorem ran_runOn (files : FileSystem) (args : Arguments) : Ran files args (runOn files args) := by
  unfold runOn run
  have hinput := run_readText args.input ⟨files, ""⟩
  rcases htext : (files.read args.input).text? with _ | text <;> rw [htext] at hinput
  · rw [run_bind_error hinput]
    exact .inputUnread htext
  rw [run_bind_ok hinput]
  have hmemory := run_readData args.memoryInput ⟨files, ""⟩
  rcases hdata : (files.read args.memoryInput).data? with _ | data <;> rw [hdata] at hmemory
  · rw [run_bind_error hmemory]
    exact .memoryUnread htext hdata
  rw [run_bind_ok hmemory]
  have hinputs : Inputs files args text data := ⟨htext, hdata⟩
  rcases ht : transform text (data.map args.staticMemory) args.options with f | a <;> dsimp only
  · exact .refused hinputs ht
  · rw [run_bind_ok (run_reports a.diagnostics _)]
    exact ran_deliver ⟨text, data, hinputs, ht⟩

/-! ## What is left behind -/

/-- What a run that ends well leaves behind: the module and the memory in two places, every other place as it was, paths
that start where they did, and all that is printed. -/
structure Delivered (before : FileSystem) (args : Arguments) (a : Artifacts) (after : World) : Prop where
  files : ∃ place place', place ≠ place' ∧
    after.files.destination args.output = .file place (encodeUtf8 a.moduleText) ∧
    after.files.destination args.memoryOutput = .file place' a.memory ∧
    ∀ other, other ≠ place → other ≠ place' → after.files.node? other = before.node? other
  cwd : after.files.cwd = before.cwd
  readOnly : after.files.readOnly = before.readOnly
  stdout : after.stdout = args.dump a ++ loaderText a

theorem delivered_of_write? {files files₁ files₂ : FileSystem} {args : Arguments} {a : Artifacts}
    (h₁ : files.write? args.output (encodeUtf8 a.moduleText) = some files₁)
    (h₂ : files₁.write? args.memoryOutput a.memory = some files₂) :
    Delivered files args a ⟨files₂, args.dump a ++ loaderText a⟩ := by
  have hfiles := FileSystem.write?_write? h₁ h₂
  obtain ⟨_, -, rfl⟩ := FileSystem.write?_eq_some h₁
  obtain ⟨_, -, rfl⟩ := FileSystem.write?_eq_some h₂
  exact ⟨hfiles, rfl, rfl, rfl⟩

theorem transform_missing {text : String} {m : HostModule} (h : HostModule.parse text = .ok m) (o : Options) :
    transform text none o = .error .missingMemoryImage := by
  unfold transform
  rw [h]
  rfl

/-- What is made is made of a memory that is there. -/
theorem exists_data_of_makes {files : FileSystem} {args : Arguments} {a : Artifacts} (h : Makes files args a) :
    ∃ text data, Inputs files args text (some data) ∧
      transform text (some (args.staticMemory data)) args.options = .ok a := by
  obtain ⟨text, data, hi, ha⟩ := h
  rcases data with _ | data
  · obtain ⟨m, hm, -⟩ := bind_eq_ok_iff.1 ha
    rw [Option.map_none, transform_missing hm] at ha
    cases ha
  · exact ⟨text, data, hi, ha⟩

theorem Makes.unique {files : FileSystem} {args : Arguments} {a a' : Artifacts} (h : Makes files args a)
    (h' : Makes files args a') : a = a' := by
  obtain ⟨text, data, hi, ha⟩ := h
  obtain ⟨text', data', hi', ha'⟩ := h'
  cases hi.text.symm.trans hi'.text
  cases hi.data.symm.trans hi'.data
  cases ha.symm.trans ha'
  rfl

/-- **A run ends well exactly if its files can be read, transformed and written.** -/
theorem exists_runOn_eq_ok_iff (files : FileSystem) (args : Arguments) :
    (∃ w, runOn files args = (.ok (), w)) ↔ ∃ a files₁ files₂, Makes files args a ∧
      files.write? args.output (encodeUtf8 a.moduleText) = some files₁ ∧
      files₁.write? args.memoryOutput a.memory = some files₂ := by
  have hran := ran_runOn files args
  constructor
  · rintro ⟨w, h⟩
    rw [h] at hran
    cases hran with
    | done ha h₁ h₂ => exact ⟨_, _, _, ha, h₁, h₂⟩
  · rintro ⟨a, files₁, files₂, ha, h₁, h₂⟩
    obtain ⟨text, data, hi, ht⟩ := ha
    generalize runOn files args = out at hran
    cases hran with
    | inputUnread h => cases hi.text.symm.trans h
    | memoryUnread _ h => cases hi.data.symm.trans h
    | refused hi' h =>
      cases hi.text.symm.trans hi'.text
      cases hi.data.symm.trans hi'.data
      cases ht.symm.trans h
    | moduleUnwritten ha' h =>
      cases ha'.unique ⟨text, data, hi, ht⟩
      cases h₁.symm.trans h
    | memoryUnwritten ha' h₁' h =>
      cases ha'.unique ⟨text, data, hi, ht⟩
      cases h₁.symm.trans h₁'
      cases h₂.symm.trans h
    | done => exact ⟨_, rfl⟩

theorem memoryOutput_ne_output (args : Arguments) : args.memoryOutput ≠ args.output := by
  intro h
  have hlen := congrArg String.length h
  simp [Arguments.memoryOutput, memoryPath] at hlen

theorem data?_of_directory {files : FileSystem} {path : String} (h : files.destination path = .directory) :
    (files.read path).data? = none := by
  unfold FileSystem.read
  rw [h]
  rfl

/-- **A missing memory is for the transform to refuse**, once the input has parsed. -/
theorem runOn_of_missing {files : FileSystem} {args : Arguments} {text : String} {m : HostModule}
    (htext : (files.read args.input).text? = some text) (hm : HostModule.parse text = .ok m)
    (hmissing : files.read args.memoryInput = .missing) :
    runOn files args = (.error (.transform "E008"), ⟨files, ""⟩) := by
  have hran := ran_runOn files args
  have hdata : (files.read args.memoryInput).data? = some none := by
    rw [hmissing]
    rfl
  generalize runOn files args = out at hran
  cases hran with
  | inputUnread h =>
    rw [htext] at h
    cases h
  | memoryUnread _ h =>
    rw [hdata] at h
    cases h
  | refused hi h =>
    cases htext.symm.trans hi.text
    cases hdata.symm.trans hi.data
    cases (transform_missing hm args.options).symm.trans h
    rfl
  | moduleUnwritten ha | memoryUnwritten ha | done ha =>
    obtain ⟨_, _, hi, -⟩ := exists_data_of_makes ha
    cases hdata.symm.trans hi.data

/-- **A directory in the place of the memory is not read**, whatever the input holds. -/
theorem runOn_of_directory {files : FileSystem} {args : Arguments}
    (hd : files.destination args.memoryInput = .directory) :
    runOn files args =
      (.error (.read (if (files.read args.input).text?.isSome then args.memoryInput else args.input)), ⟨files, ""⟩) := by
  have hran := ran_runOn files args
  have hdata := data?_of_directory hd
  generalize runOn files args = out at hran
  cases hran with
  | inputUnread h =>
    rw [h]
    rfl
  | memoryUnread ht =>
    rw [ht]
    rfl
  | refused hi => cases hdata.symm.trans hi.data
  | moduleUnwritten ha | memoryUnwritten ha | done ha =>
    obtain ⟨_, _, hi, -⟩ := exists_data_of_makes ha
    cases hdata.symm.trans hi.data

/-- **A run leaves the files alone until its transform is done.**  One that cannot read or transform changes nothing and
prints nothing, one that cannot write the module changes no file, and one that ends well leaves what comes of the files
as they were in front of it.  A missing memory is refused by the transform, a directory in its place by the reading. -/
theorem runOn_changes_files_last (files : FileSystem) (args : Arguments) :
    (∀ path w, runOn files args = (.error (.read path), w) → w = ⟨files, ""⟩) ∧
    (∀ code w, runOn files args = (.error (.transform code), w) → w = ⟨files, ""⟩) ∧
    (∀ w, runOn files args = (.error (.write args.output), w) → w.files = files) ∧
    (∀ w, runOn files args = (.ok (), w) → ∃ text data a, Inputs files args text (some data) ∧
      transform text (some (args.staticMemory data)) args.options = .ok a ∧ Delivered files args a w) ∧
    (∀ text m, (files.read args.input).text? = some text → HostModule.parse text = .ok m →
      files.read args.memoryInput = .missing → runOn files args = (.error (.transform "E008"), ⟨files, ""⟩)) ∧
    (files.destination args.memoryInput = .directory → runOn files args =
      (.error (.read (if (files.read args.input).text?.isSome then args.memoryInput else args.input)), ⟨files, ""⟩)) := by
  have hran := ran_runOn files args
  refine ⟨?read, ?transform, ?write, ?done, ?missing, ?directory⟩
  case read =>
    intro path w h
    rw [h] at hran
    cases hran <;> rfl
  case transform =>
    intro code w h
    rw [h] at hran
    cases hran
    rfl
  case write =>
    intro w h
    rw [h] at hran
    generalize hp : args.output = path at hran
    cases hran with
    | moduleUnwritten => rfl
    | memoryUnwritten => exact absurd hp.symm (memoryOutput_ne_output args)
  case done =>
    intro w h
    rw [h] at hran
    cases hran with
    | done ha h₁ h₂ =>
      obtain ⟨text, data, hi, ht⟩ := exists_data_of_makes ha
      exact ⟨text, data, _, hi, ht, delivered_of_write? h₁ h₂⟩
  case missing => exact fun text m htext hm hmissing => runOn_of_missing htext hm hmissing
  case directory => exact runOn_of_directory

/-- A module and its memory are replaced from what they were, by paths that reach them from elsewhere. -/
theorem runOn_changes_files_last_in_place : ∃ files args w, files.cwd = ["home"] ∧ args.input = "../tmp/in.js" ∧
    args.output = "/tmp/in.js" ∧ runOn files args = (.ok (), w) ∧
    w.files.read "/tmp/in.js.mem" = .bytes [1, 2, 3, 4, 0, 0, 0, 0, 255, 0, 0, 0, 0, 0, 0, 0] ∧
    ∃ text data a, Inputs files args text (some data) ∧
      transform text (some (args.staticMemory data)) args.options = .ok a ∧ Delivered files args a w := by
  let files : FileSystem :=
    { entries := [(["home"], .directory), (["tmp"], .directory),
        (["tmp", "in.js"], .file (encodeUtf8 "function _f() \x7b\n\x7d [\"FUNC\", 0, 0, 0]")),
        (["tmp", "in.js.mem"], .file [1, 2, 3, 4])]
      cwd := ["home"] }
  let args : Arguments := ⟨"../tmp/in.js", "/tmp/in.js", none, none, ⟨64, 8⟩, false⟩
  have hok : (runOn files args).1.isOk = true := by decide +kernel
  have hmemory : (runOn files args).2.files.read "/tmp/in.js.mem" =
      .bytes [1, 2, 3, 4, 0, 0, 0, 0, 255, 0, 0, 0, 0, 0, 0, 0] := by decide +kernel
  rcases hrun : runOn files args with ⟨e | ⟨⟩, w⟩ <;> rw [hrun] at hok hmemory
  · cases hok
  · exact ⟨files, args, w, rfl, rfl, rfl, hrun, hmemory, (runOn_changes_files_last files args).2.2.2.1 w hrun⟩

end Wordcode.Command
