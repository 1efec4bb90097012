import RobotBlocks.CommandLine.FileTree
import RobotBlocks.Proofs.Context.Words
import RobotBlocks.Proofs.Program.LinkFaults
import RobotBlocks.Proofs.Render.Links

/-!
# Class names

What is left of a name is nothing or an identifier, and identifiers are left as they are
(`ofName_eq_self_iff`). So the check on the name of a class accepts exactly the identifiers that are
not reserved. A class that is called after its file always passes it: a run without a name for the
class never complains about one (`class_names_are_usable`).
-/

set_option autoImplicit false

namespace RobotBlocks

open Grammar List

variable {name : String}

namespace Identifier

/-- A character that an identifier can begin with. -/
def Begins (c : Char) : Prop := c.isAlpha = true ∨ c = '_' ∨ c = '$'

/-- A character to begin with, and then such characters or digits. -/
inductive IsIdentifier : List Char → Prop
  | mk {first : Char} {rest : List Char} (hfirst : Begins first)
      (hrest : ∀ c ∈ rest, Begins c ∨ c.isDigit = true) : IsIdentifier (first :: rest)

/-- A name that a class may have. -/
structure Usable (name : String) : Prop where
  isIdentifier : IsIdentifier name.toList
  not_reserved : isReserved name = false

theorem isIdentifierChar_iff {c : Char} :
    isIdentifierChar c = true ↔ Begins c ∨ c.isDigit = true := by
  simp only [isIdentifierChar, Begins, Char.isAlphanum, Bool.or_eq_true, decide_eq_true_eq]
  tauto

theorem Begins.isDigit_eq_false {c : Char} (h : Begins c) : c.isDigit = false := by
  rcases h with h | rfl | rfl
  · unfold Char.isAlpha Char.isUpper Char.isLower at h
    unfold Char.isDigit
    simp only [Bool.or_eq_true, Bool.and_eq_true, decide_eq_true_eq, Bool.and_eq_false_iff,
      decide_eq_false_iff_not, ge_iff_le, UInt32.le_iff_toNat_le] at h ⊢
    change _ ∨ ¬ c.val.toNat ≤ 57
    change 65 ≤ _ ∧ _ ∨ 97 ≤ _ ∧ _ at h
    omega
  · rfl
  · rfl

theorem isIdentifier_iff_isWord {cs : List Char} : IsIdentifier cs ↔ IsWord cs := by
  constructor
  · rintro ⟨hfirst, hrest⟩
    refine ⟨cons_ne_nil _ _, fun c hc => isIdentifierChar_iff.2 ?_, ?_⟩
    · rcases mem_cons.1 hc with rfl | hc
      · exact .inl hfirst
      · exact hrest c hc
    · rintro c ⟨⟩
      exact hfirst.isDigit_eq_false
  · intro h
    cases cs with
    | nil => exact absurd rfl h.ne_nil
    | cons first rest =>
      have hchars := fun c hc => isIdentifierChar_iff.1 (h.chars c hc)
      refine ⟨(hchars first mem_cons_self).resolve_right ?_, (forall_mem_cons.1 hchars).2⟩
      rw [h.head first rfl]
      exact Bool.false_ne_true

theorem ofName_cases (name : String) : ofName name = "" ∨ IsIdentifier (ofName name).toList := by
  cases hempty : (ofName name).isEmpty with
  | true => exact .inl (String.isEmpty_iff.1 hempty)
  | false => exact .inr (isIdentifier_iff_isWord.2 (isWord_ofName hempty))

theorem ofNameChars_of_isWord {cs : List Char} (h : IsWord cs) : ofNameChars cs = cs := by
  unfold ofNameChars
  rw [filter_eq_self.2 h.chars]
  refine if_neg fun hdigit => ?_
  obtain ⟨c, hc, hdigit⟩ := (Option.any_eq_true _ _).1 hdigit
  rw [h.head c hc] at hdigit
  cases hdigit

theorem ofName_eq_self_iff : ofName name = name ↔ name = "" ∨ IsIdentifier name.toList := by
  constructor
  · intro h
    rw [← h]
    exact ofName_cases _
  · rintro (rfl | h)
    · rfl
    · rw [ofName, ofNameChars_of_isWord (isIdentifier_iff_isWord.1 h), String.ofList_toList]

theorem isClassName_iff : isClassName name = true ↔ Usable name := by
  simp only [isClassName, Bool.and_eq_true, Bool.not_eq_true', decide_eq_true_eq,
    ofName_eq_self_iff]
  constructor
  · rintro ⟨⟨hempty, rfl | hname⟩, hreserved⟩
    · cases hempty
    · exact ⟨hname, hreserved⟩
  · rintro ⟨hname, hreserved⟩
    refine ⟨⟨?_, .inr hname⟩, hreserved⟩
    rw [Bool.eq_false_iff]
    intro hempty
    rw [String.isEmpty_iff.1 hempty] at hname
    cases hname

end Identifier

open Identifier

theorem Path.usable_className (path : String) : Usable (className path) := by
  unfold className
  generalize ((fileName? path.toList).map stem).getD [] = cs
  have hname : String.ofList (ofNameChars cs) = ofName (String.ofList cs) := by simp [ofName]
  dsimp only
  rw [hname]
  split
  · exact isClassName_iff.1 (by decide)
  · next h =>
    simp only [Bool.or_eq_true, not_or, Bool.not_eq_true] at h
    refine ⟨(ofName_cases _).resolve_left fun hempty => ?_, h.2⟩
    rw [hempty] at h
    exact absurd h.1 (by decide)

/-! ## Runs -/

/-- A fault of a run that is not about the name of the class. -/
def CommandLine.RunFault.AcceptsName : RunFault → Prop
  | inputInvalid _ (.badClassName _) => False
  | notRendered (.badClassName _) => False
  | _ => True

variable {program : Program}

namespace Program

theorem fst_read (source : String) : (read source).1 = ((load source).run.run {}).1 := by
  unfold read
  generalize (load source).run.run {} = outcome
  rfl

theorem read_ne_badClassName {source : String} : (read source).1 ≠ .error (.badClassName name) := by
  rw [fst_read]
  intro h
  have hfails := fails_of_fst_run_eq h
  unfold load at hfails
  dsimp only at hfails
  split at hfails
  · cases (fails_throw.1 hfails).1
  · exact ofLoading_of_fails_ofRoot hfails

theorem validate_of_read {source : String} (h : (read source).1 = .ok program) :
    program.workspace.validate = .ok () := by
  rw [fst_read] at h
  have hyields := yields_of_fst_run_eq h
  unfold load at hyields
  dsimp only at hyields
  split at hyields
  · exact absurd hyields yields_throw
  · exact (shaped_and_valid_of_loaded hyields).2

theorem render_ne_badClassName (hvalid : program.workspace.validate = .ok ()) {target : Target}
    {hardware : Hardware} {options : ClassOptions} (husable : Usable options.className) :
    (program.render target hardware options).1 ≠ .error (.badClassName name) := by
  intro h
  let setting : Setting := { workspace := program.workspace, hardware, target, options }
  have hfails : Fails (setting.program program.registration) setting.firstDraft
      (.badClassName name) _ := fails_of_fst_run_eq h
  obtain ⟨level, hlevel⟩ := Workspace.exists_leveled_of_validate hvalid
  rcases Setting.fails_program hlevel hfails with hown | ⟨-, hname⟩
  · cases hown
  · rw [isClassName_iff.2 husable] at hname
    cases hname

end Program

namespace CommandLine

open RunFault (AcceptsName)

variable {σ : Type} {host : Host (StateM σ)} {arguments : Arguments}

theorem failsOnly_host {α : Type} (action : StateM σ α) :
    FailsOnly AcceptsName (liftM action : ExceptT RunFault (StateM σ) α) := by
  intro before fault after h
  cases h

theorem failsOnly_findInput : FailsOnly AcceptsName (findInput host arguments) := by
  refine (failsOnly_host _).bind fun _ found _ _ => ?_
  cases found with
  | none => exact .throw trivial
  | some file => exact .pure file

theorem failsOnly_loadHardware : FailsOnly AcceptsName (loadHardware host arguments) := by
  unfold loadHardware
  split
  · exact .pure _
  refine (failsOnly_host _).bind fun _ _ _ _ => (failsOnly_host _).bind fun _ text _ _ => ?_
  cases text with
  | none => exact .throw trivial
  | some text =>
    refine .liftM fun fault hfault => ?_
    unfold readHardware at hfault
    split at hfault
    · cases hfault
    · cases hfault
      exact trivial

theorem failsOnly_emit (code : String) : FailsOnly AcceptsName (emit host arguments code) := by
  unfold emit
  split
  · exact failsOnly_host _
  refine (failsOnly_host _).bind fun _ written _ _ => ?_
  cases written with
  | true => exact .pure ()
  | false => exact .throw trivial

theorem validate_of_readProgram {file : FoundFile} (h : readProgram file = .ok program) :
    program.workspace.validate = .ok () := by
  unfold readProgram at h
  split at h
  · cases h
  · split at h
    · next hread =>
      cases h
      exact Program.validate_of_read hread
    · cases h

theorem acceptsName_of_readProgram {file : FoundFile} {fault : RunFault}
    (h : readProgram file = .error fault) : fault.AcceptsName := by
  unfold readProgram at h
  split at h
  · cases h
    exact trivial
  · split at h
    · cases h
    · next cause hread =>
      cases h
      cases cause
      case badClassName name => exact Program.read_ne_badClassName hread
      all_goals exact trivial

theorem failsOnly_run (hnone : arguments.className = none) :
    FailsOnly AcceptsName (run host arguments) := by
  refine (failsOnly_host _).bind fun _ _ _ _ => failsOnly_findInput.bind fun _ file _ _ =>
    failsOnly_loadHardware.bind fun _ hardware _ _ => (failsOnly_host _).bind fun _ _ _ _ => ?_
  refine FailsOnly.bind (.liftM fun _ => acceptsName_of_readProgram) fun _ program _ hprogram => ?_
  have hvalid := validate_of_readProgram (yields_liftM.1 hprogram).1
  refine (failsOnly_host _).bind fun _ _ _ _ => FailsOnly.bind (.liftM fun fault hfault => ?_)
    fun _ code _ _ => failsOnly_emit code
  have husable : Usable (arguments.classOptions file.fullPath).className := by
    simp only [Arguments.classOptions, hnone, Option.getD_none]
    exact Path.usable_className file.fullPath
  unfold renderProgram at hfault
  split at hfault
  · cases hfault
  · next cause hrender =>
    cases hfault
    cases cause
    case badClassName name => exact Program.render_ne_badClassName hvalid husable hrender
    all_goals exact trivial

end CommandLine

open CommandLine

/-- What is left of a name is nothing or an identifier, and exactly those two are left unchanged. A
class is generated under a name if that is an identifier and not reserved, and otherwise the name is
the fault. The name that a path gives is never one, so a run that is given no name for the class has
no such fault, wherever it takes place. -/
theorem class_names_are_usable :
    (∀ name, ofName name = "" ∨ IsIdentifier (ofName name).toList) ∧
      (∀ name, ofName (ofName name) = ofName name) ∧
      (∀ name, ofName name = name ↔ name = "" ∨ IsIdentifier name.toList) ∧
      (∀ (r : Renderer) registration,
        (Usable r.setting.options.className → Compiled.program r registration = do
          return Compiled.assemble r.setting.options (← Compiled.collect r registration)) ∧
        (¬ Usable r.setting.options.className → Compiled.program r registration =
          throw (.badClassName r.setting.options.className))) ∧
      (∀ path, Usable (Path.className path)) ∧
      ∀ (σ : Type) (host : Host (StateM σ)) arguments, arguments.className = none →
        ∀ before fault after, Fails (run host arguments) before fault after →
          ∀ path name, fault ≠ .notRendered (.badClassName name) ∧
            fault ≠ .inputInvalid path (.badClassName name) := by
  refine ⟨ofName_cases, fun name => ofName_eq_self_iff.2 (ofName_cases name),
    fun name => ofName_eq_self_iff, fun r registration => ?_, Path.usable_className, ?_⟩
  · unfold Compiled.program
    dsimp only
    rw [← isClassName_iff]
    constructor
    all_goals
      intro h
      simp [h]
  · intro σ host arguments hnone before fault after h path name
    have haccepts := failsOnly_run hnone before fault after h
    constructor
    all_goals
      rintro rfl
      exact haccepts

/-- One token of a document is read, and what is left is read from there on. -/
theorem Xml.Reader.readAll?_of_next {scanner next : Scanner} {reader fed : Reader}
    {source rest : Source} {token : Token} {text : List Char} (hmore : source.chars.isEmpty = false)
    (hnext : scanner.next? source.chars = some (token, next))
    (hfeed : reader.feed token = some (fed, text))
    (hrest : (source.drop token.chars.length).insert? text = some rest) :
    readAll? scanner reader source = readAll? next fed rest := by
  rw [readAll?, if_neg (by simp [hmore])]
  split <;> rename_i h <;> rw [hnext] at h <;> cases h
  simp only [hfeed]
  split <;> rename_i h <;> rw [hrest] at h <;> cases h
  rfl

/-- A file that is called after a reserved word, with a document without blocks. -/
def wordFile : FoundFile := ⟨"/home/class.blk", some "<xml/>"⟩

def wordFolder : FileTree := (FileTree.machine "/home").putHere "class.blk" (.file wordFile.text)

/-- A class is asked for, in a folder that is not there. -/
def wordArguments : Arguments :=
  { input := "class.blk", output := some "absent/Main.java", target := .java }

theorem readProgram_wordFile : readProgram wordFile = .ok { workspace := .empty } := by
  have hxml : Xml.read? "<xml/>" = some ⟨"xml", {}, "", []⟩ := by
    show Xml.Reader.readAll? {} {} { chars := ['<', 'x', 'm', 'l', '/', '>'] } = _
    iterate 5 rw [Xml.Reader.readAll?_of_next rfl rfl rfl rfl]
    rw [Xml.Reader.readAll?]
    rfl
  have hload : Program.load "<xml/>" = Program.ofRoot ⟨"xml", {}, "", []⟩ none := by
    unfold Program.load
    rw [show Program.documents "<xml/>" = ("<xml/>", none) from rfl]
    dsimp only
    rw [hxml]
  have hvalid : Workspace.empty.validate = .ok () := by decide +kernel
  have hyields : Yields (Program.load "<xml/>") {} { workspace := .empty }
      { events := [.loaded 0] } := by
    rw [hload]
    refine yields_bind.2 ⟨{}, _, rfl, yields_bind.2 ⟨_, _, yields_bind.2 ⟨(), _, rfl,
      yields_bind.2 ⟨_, _, rfl, yields_bind.2 ⟨(), _, yields_liftM.2 ⟨hvalid, rfl⟩, ?_⟩⟩⟩, rfl⟩⟩
    rfl
  unfold readProgram Program.read wordFile
  dsimp only
  rw [show StateT.run _ _ = _ from hyields]

/-- No class can be called that. The class of the file has another name and is generated, so the run
fails only because there is nowhere to write it. -/
theorem class_file_is_only_unwritten :
    ¬ Usable "class" ∧ Path.className "/home/class.blk" = "BlocksOpMode" ∧
      Usable (Path.className "/home/class.blk") ∧
      (∃ code, renderProgram wordArguments {} wordFile { workspace := .empty } = .ok code) ∧
      ∃ after, Fails (run Session.host wordArguments) { files := wordFolder }
          (.outputUnwritable "absent/Main.java") after ∧
        RunFault.outputUnwritable "absent/Main.java" ≠ .notRendered (.badClassName "class") := by
  obtain ⟨-, -, -, -, hpath, hrun⟩ := class_names_are_usable
  have hclass : ¬ Usable "class" := by
    rw [← isClassName_iff]
    decide
  have hrendered : (renderProgram wordArguments {} wordFile
      { workspace := .empty }).toOption.isSome = true := by decide +kernel
  cases hrender : renderProgram wordArguments {} wordFile { workspace := .empty } with
  | error fault => simp [hrender, Except.toOption] at hrendered
  | ok code =>
    have hfails : Fails (run Session.host wordArguments) { files := wordFolder }
        (.outputUnwritable "absent/Main.java") _ :=
      Yields.fails rfl (Yields.fails rfl (Yields.fails rfl (Yields.fails rfl
        (Yields.fails (yields_liftM.2 ⟨readProgram_wordFile, rfl⟩)
          (Yields.fails rfl (Yields.fails (yields_liftM.2 ⟨hrender, rfl⟩) rfl))))))
    exact ⟨hclass, by decide, hpath _, ⟨code, rfl⟩, _, hfails,
      (hrun Session Session.host wordArguments rfl { files := wordFolder } _ _ hfails "" "class").1⟩

end RobotBlocks
