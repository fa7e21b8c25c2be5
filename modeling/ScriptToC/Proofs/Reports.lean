/-
  ScriptToC.Proofs.Reports — what a run of the command prints and how it ends hangs on the script alone.

  Where the script comes from, the flags and the environment decide about the log only, and the log is the
  part of all events that the level lets through (`LogLevel.shows_iff`). The level is said here by what is
  given: `flagsGiven` are the flags among the arguments as they are written, and accepted arguments hold
  exactly these (`Arguments.times_of_withAll`); a text names the level whose name it is
  (`LogLevel.ofText?_eq_some_iff`). Main statement: `runs_differ_in_the_log`.
-/

import ScriptToC.Command.Run
import ScriptToC.Proofs.Lexing
import ScriptToC.Proofs.Passage

namespace ScriptToC

namespace Command

/-! ## The flags among the arguments -/

/-- The flags that one argument gives. -/
def flagsOf (argument : String) : List Flag :=
  match argument.toList with
  | '-' :: '-' :: text => (Flag.ofName? (String.ofList text)).toList
  | '-' :: c :: letters => (c :: letters).filterMap Flag.ofLetter?
  | _ => []

theorem flagsOf_long {argument : String} {text : List Char} (h : argument.toList = '-' :: '-' :: text) :
    flagsOf argument = (Flag.ofName? (String.ofList text)).toList := by
  simp only [flagsOf, h]

theorem flagsOf_letters {argument : String} {c : Char} {letters : List Char}
    (h : argument.toList = '-' :: c :: letters) (hdash : c ≠ '-') :
    flagsOf argument = (c :: letters).filterMap Flag.ofLetter? := by
  simp only [flagsOf, h]

theorem flagsOf_path {argument : String} (h : ∀ c letters, argument.toList ≠ '-' :: c :: letters) :
    flagsOf argument = [] := by
  unfold flagsOf
  split
  · rename_i text htext
    exact absurd htext (h '-' text)
  · rename_i c letters hdash htext
    exact absurd htext (h c letters)
  · rfl

/-- Behind a lone `--` there are none. -/
def flagsGiven (args : List String) : List Flag := (args.takeWhile (· ≠ "--")).flatMap flagsOf

namespace Arguments

variable {a b : Arguments} {flag : Flag}

/-- How often a flag that does not end the reading was given. -/
def times (a : Arguments) : Flag → Nat
  | .verbose => a.verbose
  | .quiet => a.quiet
  | .help | .version => 0

theorem times_of_withFlag {given : Flag} (h : a.withFlag given = .ok b) :
    b.times flag = a.times flag + [given].count flag := by
  cases given with
  | help | version => cases h
  | verbose | quiet =>
    cases h
    cases flag <;> rfl

theorem times_of_withLetters {letters : List Char} (h : letters.foldlM withLetter a = .ok b) :
    b.times flag = a.times flag + (letters.filterMap Flag.ofLetter?).count flag := by
  induction letters generalizing a with
  | nil =>
    cases h
    rfl
  | cons c letters ih =>
    rw [List.foldlM_cons] at h
    obtain ⟨a₁, hletter, hrest⟩ := Except.bind_eq_ok.1 h
    unfold withLetter at hletter
    split at hletter
    · rename_i given hgiven
      rw [ih hrest, times_of_withFlag hletter, List.filterMap_cons_some hgiven, Nat.add_assoc, ← List.count_append]
      rfl
    · cases hletter

theorem times_of_withLong {text : List Char} (h : a.withLong text = .ok b) :
    b.times flag = a.times flag + (Flag.ofName? (String.ofList text)).toList.count flag := by
  unfold withLong at h
  dsimp only at h
  split at h
  · rename_i given hgiven
    split at h
    · rename_i hname
      rw [← hname, hgiven]
      exact times_of_withFlag h
    · cases h
  · cases h

theorem times_of_withPath {path : String} (h : a.withPath path = .ok b) : b.times flag = a.times flag := by
  unfold withPath at h
  split at h
  · cases h
  · cases h
    cases flag <;> rfl

theorem times_of_withArgument {argument : String} (h : a.withArgument argument = .ok b) :
    b.times flag = a.times flag + (flagsOf argument).count flag := by
  unfold withArgument at h
  split at h
  · rename_i text htext
    rw [flagsOf_long htext]
    exact times_of_withLong h
  · rename_i c letters hdash htext
    rw [flagsOf_letters htext hdash]
    exact times_of_withLetters h
  · rename_i hlong hletters
    rw [flagsOf_path hletters, times_of_withPath h]
    rfl

theorem times_of_withPaths {paths : List String} (h : paths.foldlM withPath a = .ok b) :
    b.times flag = a.times flag := by
  induction paths generalizing a with
  | nil =>
    cases h
    rfl
  | cons path paths ih =>
    rw [List.foldlM_cons] at h
    obtain ⟨a₁, hpath, hrest⟩ := Except.bind_eq_ok.1 h
    rw [ih hrest, times_of_withPath hpath]

/-- Each flag is held as often as it is given. -/
theorem times_of_withAll {args : List String} (h : a.withAll args = .ok b) (flag : Flag) :
    b.times flag = a.times flag + (flagsGiven args).count flag := by
  induction args generalizing a with
  | nil =>
    cases h
    rfl
  | cons argument rest ih =>
    by_cases hdashes : argument = "--"
    · subst hdashes
      exact times_of_withPaths h
    · rw [withAll] at h
      · obtain ⟨a₁, hargument, hrest⟩ := Except.bind_eq_ok.1 h
        rw [ih hrest, times_of_withArgument hargument]
        have hgiven : flagsGiven (argument :: rest) = flagsOf argument ++ flagsGiven rest := by
          simp [flagsGiven, hdashes]
        rw [hgiven, List.count_append, Nat.add_assoc]
      · exact hdashes

end Arguments

/-! ## The level of the log -/

/-- The level that the environment names, and otherwise the one that the flags ask for. -/
inductive EffectiveLevel (args : List String) : Option String → LogLevel → Prop
  | environment {text : String} {level : LogLevel} : LogLevel.ofText? text = some level →
      EffectiveLevel args (some text) level
  | verbose : .verbose ∈ flagsGiven args → EffectiveLevel args none .debug
  | quiet : .quiet ∈ flagsGiven args → EffectiveLevel args none .off
  | neither : .verbose ∉ flagsGiven args → .quiet ∉ flagsGiven args → EffectiveLevel args none .warn

theorem Arguments.not_both {a : Arguments} {path : String} (h : a.path = .ok path) : ¬(0 < a.verbose ∧ 0 < a.quiet) := by
  intro hboth
  simp [Arguments.path, hboth] at h

section

variable {args : List String} {a : Arguments} {path : String}

theorem readArguments_eq_ok :
    readArguments args = .ok (a, path) ↔ Arguments.empty.withAll args = .ok a ∧ a.path = .ok path := by
  unfold readArguments
  constructor
  · intro h
    obtain ⟨b, hall, h⟩ := Except.bind_eq_ok.1 h
    obtain ⟨q, hpath, h⟩ := Except.bind_eq_ok.1 h
    cases h
    exact ⟨hall, hpath⟩
  · rintro ⟨hall, hpath⟩
    simp [hall, hpath]

theorem mem_flagsGiven_iff (h : readArguments args = .ok (a, path)) (flag : Flag) :
    flag ∈ flagsGiven args ↔ 0 < a.times flag := by
  have htimes := Arguments.times_of_withAll (readArguments_eq_ok.1 h).1 flag
  have hempty : Arguments.empty.times flag = 0 := by cases flag <;> rfl
  rw [← List.count_pos_iff]
  omega

/-- Of the flags that decide, accepted arguments give one at most, so the order in which they are looked at
    does not matter. -/
theorem chooseLevel_eq_ok_iff (h : readArguments args = .ok (a, path)) {levelText : Option String}
    {level : LogLevel} : chooseLevel a levelText = .ok level ↔ EffectiveLevel args levelText level := by
  have hverbose : .verbose ∈ flagsGiven args ↔ 0 < a.verbose := mem_flagsGiven_iff h .verbose
  have hquiet : .quiet ∈ flagsGiven args ↔ 0 < a.quiet := mem_flagsGiven_iff h .quiet
  have hnot := Arguments.not_both (readArguments_eq_ok.1 h).2
  constructor
  · intro hlevel
    cases levelText with
    | some text =>
      unfold chooseLevel at hlevel
      cases htext : LogLevel.ofText? text with
      | none => simp [htext] at hlevel
      | some level' =>
        simp only [htext, Except.ok.injEq] at hlevel
        exact .environment (hlevel ▸ htext)
    | none =>
      simp only [chooseLevel, levelOfFlags, Except.ok.injEq] at hlevel
      split at hlevel
      · rename_i hv
        exact hlevel ▸ .verbose (hverbose.2 hv)
      · rename_i hv
        split at hlevel
        · rename_i hq
          exact hlevel ▸ .quiet (hquiet.2 hq)
        · rename_i hq
          exact hlevel ▸ .neither (mt hverbose.1 hv) (mt hquiet.1 hq)
  · intro hlevel
    cases hlevel with
    | environment htext => simp [chooseLevel, htext]
    | verbose hv => simp [chooseLevel, levelOfFlags, hverbose.1 hv]
    | quiet hq =>
      have hv : ¬0 < a.verbose := fun hv => hnot ⟨hv, hquiet.1 hq⟩
      simp [chooseLevel, levelOfFlags, hv, hquiet.1 hq]
    | neither hv hq => simp [chooseLevel, levelOfFlags, mt hverbose.2 hv, mt hquiet.2 hq]

end

/-! ## Runs -/

/-- What a run is given: the arguments, the value of the variable for the level, and what can be read. -/
structure Invocation where
  args : List String
  levelText : Option String
  contents : Input → Except ReadFailure ByteArray

def Invocation.report (i : Invocation) : Report := run i.args i.levelText i.contents

/-- The arguments are accepted, the variable names a level if it is set, and the input holds the script. -/
structure Invocation.Reads (i : Invocation) (script : String) : Prop where
  level : ∀ text ∈ i.levelText, (LogLevel.ofText? text).isSome
  input : ∃ a path, readArguments i.args = .ok (a, path) ∧ i.contents (.ofPath path) = .ok script.toUTF8

theorem decode_toUTF8 (script : String) : decode script.toUTF8 = .ok script := by
  have hvalid : script.toUTF8.IsValidUTF8 := script.isValidUTF8
  have hread : String.fromUTF8? script.toUTF8 = some script := by
    rw [String.fromUTF8?, dif_pos hvalid]
    rfl
  rw [decode, hread]

/-- The channel, the flags and the variable come down to the level. -/
theorem Invocation.Reads.report {i : Invocation} {script : String} (h : i.Reads script) :
    ∃ level, (∀ l, EffectiveLevel i.args i.levelText l ↔ l = level) ∧ i.report = compileReport level script := by
  obtain ⟨a, path, hargs, hinput⟩ := h.input
  obtain ⟨level, hlevel⟩ : ∃ level, chooseLevel a i.levelText = .ok level := by
    have hvalid := h.level
    cases htext : i.levelText with
    | none => exact ⟨_, rfl⟩
    | some text =>
      obtain ⟨level, hlevel⟩ := Option.isSome_iff_exists.1 (hvalid text htext)
      exact ⟨level, by simp [chooseLevel, hlevel]⟩
  refine ⟨level, fun l => ?_, ?_⟩
  · rw [← chooseLevel_eq_ok_iff hargs, hlevel, Except.ok.injEq, eq_comm]
  · have hsettings : Settings.ofCommandLine i.args i.levelText = .ok ⟨.ofPath path, level⟩ := by
      simp [Settings.ofCommandLine, hargs, hlevel]
    simp only [Invocation.report, run, hsettings, Settings.report, hinput, Except.ok_bind, decode_toUTF8]

section

variable {level : LogLevel} {script : String}

theorem compileReport_of_ok {code : String} (h : (compile script).result = .ok code) :
    compileReport level script = ⟨0, code ++ "\n", "", (compile script).events.filter level.shows⟩ := by
  simp [compileReport, h]

theorem compileReport_of_error {e : Rejection} (h : (compile script).result = .error e) :
    compileReport level script =
      ⟨1, "", "Error: " ++ e.message ++ "\n", (compile script).events.filter level.shows⟩ := by
  simp [compileReport, h, failed]

theorem compileReport_log : (compileReport level script).log = (compile script).events.filter level.shows := by
  cases hresult : (compile script).result with
  | ok code => rw [compileReport_of_ok hresult]
  | error e => rw [compileReport_of_error hresult]

end

end Command

end ScriptToC
