import DseFmi.FmiGateway.ExportedNumbers
import DseFmi.FmiGateway.ModelStacks

/-!
# The command lines of the models

The command line of a process is printed piece by piece into a buffer of fixed size. A piece
starts where the pieces before it end, also when the buffer did not hold them.
-/

namespace DseFmi.FmiGateway

open DseFmi.Fmu DseFmi.Generate DseFmi.Library

def printText (text : Option String) : List UInt8 := printString (text.map cString)

def printNumber (x : Double) : List UInt8 := (cString (printfF x)).bytes

/-- What the calls of `snprintf` print for a model, one after the other. -/
def commandPieces (path : String) (m : WindowsModel) : List (List UInt8) :=
  [utf8 "cmd /C cd " ++ printText (some path) ++ utf8 " && " ++ printText m.exe,
    utf8 " --name " ++ printText m.name,
    utf8 " --endtime " ++ printNumber m.endTime,
    utf8 " --stepsize " ++ printNumber m.stepSize,
    utf8 " --logger " ++ (cString (itoa m.logLevel)).bytes,
    utf8 " --timeout " ++ printNumber m.timeout] ++
      (m.yaml.map fun yaml => utf8 " " ++ printText (some yaml)).toList

/-- `max_len - offset`, a difference of unsigned numbers. -/
def remaining (offset : Nat) : Nat := ((maxCmdLength : Int) - offset) % 2 ^ 64 |>.toNat

def commandRound (s : List UInt8 × Nat) (text : List UInt8) : Option (List UInt8 × Nat) :=
  (snprintf s.1 s.2 (remaining s.2) text).map fun printed => (printed.1, s.2 + printed.2)

/-- The command from a buffer with any contents; `none` when something is written outside of
the buffer. -/
def buildCmd (cmd : List UInt8) (path : String) (m : WindowsModel) : Option (List UInt8) :=
  ((commandPieces path m).foldlM commandRound (cmd, 0)).map fun s => s.1.takeWhile (· ≠ 0)

def commandLine (path : String) (m : WindowsModel) : List UInt8 := (commandPieces path m).flatten

/-- No piece begins behind the end of the buffer. -/
def PiecesFit (offset : Nat) : List (List UInt8) → Prop
  | [] => True
  | text :: pieces =>
      offset ≤ maxCmdLength ∧ text.length ≤ 2147483647 ∧ PiecesFit (offset + text.length) pieces

/-- As much as the buffer holds, with its end; nothing is known of a buffer without a piece. -/
def Holds (cmd done : List UInt8) : Prop :=
  cmd.length = maxCmdLength ∧
    (done = [] ∨ ∃ rest, cmd = done.take (maxCmdLength - 1) ++ 0 :: rest)

theorem remaining_of_le {offset : Nat} (inside : offset ≤ maxCmdLength) :
    remaining offset = maxCmdLength - offset := by
  unfold remaining maxCmdLength at *
  omega

theorem remaining_of_lt {offset : Nat} (behind : maxCmdLength < offset)
    (bounded : offset ≤ maxCmdLength + 2147483647) : 2147483647 < remaining offset := by
  unfold remaining maxCmdLength at *
  omega

theorem Holds.front {cmd done : List UInt8} (holds : Holds cmd done)
    (room : done.length < maxCmdLength) :
    ∃ behind, cmd = done ++ behind ∧ behind.length = maxCmdLength - done.length := by
  obtain ⟨size, held⟩ := holds
  have split : ∃ behind, cmd = done ++ behind := by
    rcases held with rfl | ⟨rest, held⟩
    · exact ⟨cmd, rfl⟩
    · rw [List.take_of_length_le (by omega)] at held
      exact ⟨0 :: rest, held⟩
  obtain ⟨behind, held⟩ := split
  refine ⟨behind, held, ?_⟩
  rw [held, List.length_append] at size
  omega

theorem commandRound_holds {cmd done text : List UInt8} (holds : Holds cmd done)
    (inside : done.length ≤ maxCmdLength) (short : text.length ≤ 2147483647) :
    ∃ next, commandRound (cmd, done.length) text = some (next, done.length + text.length) ∧
      Holds next (done ++ text) := by
  rw [commandRound, remaining_of_le inside, snprintf, if_neg (Nat.not_lt.mpr short)]
  dsimp only
  by_cases full : maxCmdLength - done.length = 0
  · rw [if_pos full]
    obtain ⟨size, held⟩ := holds
    refine ⟨cmd, rfl, size, .inr ?_⟩
    rcases held with rfl | ⟨rest, held⟩
    · exact absurd full (by decide)
    · refine ⟨rest, ?_⟩
      rw [held, List.take_append_of_le_length]
      unfold maxCmdLength at *
      omega
  · rw [if_neg full]
    obtain ⟨behind, held, length⟩ := holds.front (by omega)
    have printed : (text.take (maxCmdLength - done.length - 1) ++ [0]).length ≤
        behind.length := by
      simp only [List.length_append, List.length_take, List.length_singleton]
      omega
    have written := store_behind done (text.take (maxCmdLength - done.length - 1) ++ [0]) printed
    rw [← held] at written
    rw [written]
    refine ⟨_, rfl, (length_store written).trans holds.1, .inr ⟨behind.drop
      (text.take (maxCmdLength - done.length - 1) ++ [0]).length, ?_⟩⟩
    · have all : done.take (maxCmdLength - 1) = done := List.take_of_length_le (by omega)
      have left : maxCmdLength - 1 - done.length = maxCmdLength - done.length - 1 := by omega
      rw [List.take_append, all, left, List.append_assoc, List.append_assoc, List.append_assoc]
      rfl

/-- A piece behind the end is written outside of the buffer. -/
theorem commandRound_outside {cmd text : List UInt8} {offset : Nat}
    (size : cmd.length = maxCmdLength) (behind : maxCmdLength < offset)
    (bounded : offset ≤ maxCmdLength + 2147483647) : commandRound (cmd, offset) text = none := by
  have room := remaining_of_lt behind bounded
  unfold commandRound snprintf
  dsimp only
  split
  · rfl
  · rw [if_neg (by omega)]
    have outside : store cmd offset (text.take (remaining offset - 1) ++ [0]) = none := by
      rw [store, if_neg]
      omega
    rw [outside]
    rfl

theorem foldlM_commandRound {pieces : List (List UInt8)} {cmd done : List UInt8}
    (holds : Holds cmd done) (fit : PiecesFit done.length pieces) :
    ∃ next, pieces.foldlM commandRound (cmd, done.length) =
        some (next, (done ++ pieces.flatten).length) ∧ Holds next (done ++ pieces.flatten) := by
  induction pieces generalizing cmd done with
  | nil => exact ⟨cmd, by simp, by simpa using holds⟩
  | cons text pieces ih =>
      obtain ⟨inside, short, later⟩ := fit
      obtain ⟨next, round, held⟩ := commandRound_holds holds inside short
      rw [← List.length_append] at later round
      obtain ⟨last, ran, kept⟩ := ih held later
      refine ⟨last, ?_, ?_⟩
      · rw [List.foldlM_cons, round]
        simpa using ran
      · simpa using kept

theorem foldlM_commandRound_outside {pieces : List (List UInt8)} {cmd done : List UInt8}
    (holds : Holds cmd done) (bounded : done.length ≤ maxCmdLength + 2147483647)
    (unfit : ¬ PiecesFit done.length pieces) :
    pieces.foldlM commandRound (cmd, done.length) = none := by
  induction pieces generalizing cmd done with
  | nil => exact absurd trivial unfit
  | cons text pieces ih =>
      rw [List.foldlM_cons]
      by_cases inside : done.length ≤ maxCmdLength
      · by_cases short : text.length ≤ 2147483647
        · obtain ⟨next, round, held⟩ := commandRound_holds holds inside short
          rw [← List.length_append] at round
          rw [round]
          apply ih held
          · rw [List.length_append]
            omega
          · intro later
            rw [List.length_append] at later
            exact unfit ⟨inside, short, later⟩
        · have long : snprintf cmd done.length (remaining done.length) text = none :=
            if_pos (Nat.not_le.mp short)
          rw [commandRound, long]
          rfl
      · rw [commandRound_outside holds.1 (Nat.not_le.mp inside) bounded]
        rfl

theorem piecesFit_iff {pieces : List (List UInt8)} (some_ : pieces ≠ []) (offset : Nat) :
    PiecesFit offset pieces ↔ offset + pieces.dropLast.flatten.length ≤ maxCmdLength ∧
      ∀ text ∈ pieces, text.length ≤ 2147483647 := by
  induction pieces generalizing offset with
  | nil => exact absurd rfl some_
  | cons text pieces ih =>
      cases pieces with
      | nil => simp [PiecesFit]
      | cons next pieces =>
          rw [PiecesFit, ih (List.cons_ne_nil _ _), List.dropLast_cons_cons, List.flatten_cons,
            List.length_append, List.forall_mem_cons (a := text)]
          constructor
          · rintro ⟨-, short, room, later⟩
            exact ⟨by omega, short, later⟩
          · rintro ⟨room, short, later⟩
            exact ⟨by omega, short, by omega, later⟩

theorem zero_not_mem_printString (text : Option CString) : 0 ∉ printString text := by
  cases text with
  | none => decide
  | some text => exact text.no_nul

theorem zero_not_mem_commandPieces (path : String) (m : WindowsModel) :
    ∀ piece ∈ commandPieces path m, 0 ∉ piece := by
  have texts (text : Option String) : 0 ∉ printText text := zero_not_mem_printString _
  have numbers (x : Double) : 0 ∉ printNumber x := (cString (printfF x)).no_nul
  have level : 0 ∉ (cString (itoa m.logLevel)).bytes := (cString (itoa m.logLevel)).no_nul
  have literals : 0 ∉ utf8 "cmd /C cd " ∧ 0 ∉ utf8 " && " ∧ 0 ∉ utf8 " --name " ∧
      0 ∉ utf8 " --endtime " ∧ 0 ∉ utf8 " --stepsize " ∧ 0 ∉ utf8 " --logger " ∧
      0 ∉ utf8 " --timeout " ∧ 0 ∉ utf8 " " := by decide
  intro piece member
  cases yaml : m.yaml with
  | none =>
      simp only [commandPieces, yaml, Option.map_none, Option.toList_none, List.append_nil,
        List.mem_cons, List.not_mem_nil, or_false] at member
      rcases member with rfl | rfl | rfl | rfl | rfl | rfl <;>
        simp [texts, numbers, level, literals]
  | some text =>
      simp only [commandPieces, yaml, Option.map_some, Option.toList_some, List.cons_append,
        List.nil_append, List.mem_cons, List.not_mem_nil, or_false] at member
      rcases member with rfl | rfl | rfl | rfl | rfl | rfl | rfl <;>
        simp [texts, numbers, level, literals]

theorem commandPieces_ne_nil (path : String) (m : WindowsModel) : commandPieces path m ≠ [] :=
  List.cons_ne_nil _ _

/-- The last piece begins behind the end of the buffer, or a piece is too long to be counted. -/
def Overruns (path : String) (m : WindowsModel) : Prop :=
  maxCmdLength < (commandPieces path m).dropLast.flatten.length ∨
    ∃ text ∈ commandPieces path m, 2147483647 < text.length

section Build

variable {cmd : List UInt8} (size : cmd.length = maxCmdLength) {path : String} {m : WindowsModel}

theorem not_overruns_iff : ¬ Overruns path m ↔ PiecesFit 0 (commandPieces path m) := by
  rw [piecesFit_iff (commandPieces_ne_nil path m) 0, Nat.zero_add, Overruns]
  push Not
  rfl

include size in
theorem buildCmd_of_overruns (overruns : Overruns path m) : buildCmd cmd path m = none := by
  have holds : Holds cmd [] := ⟨size, .inl rfl⟩
  have unfit : ¬ PiecesFit 0 (commandPieces path m) := fun fits =>
    not_overruns_iff.mpr fits overruns
  have outside : (commandPieces path m).foldlM commandRound (cmd, 0) = none :=
    foldlM_commandRound_outside holds (Nat.zero_le _) unfit
  rw [buildCmd, outside]
  rfl

include size in
/-- Otherwise the command is the part of the command line that fits. -/
theorem buildCmd_of_not_overruns (fits : ¬ Overruns path m) :
    buildCmd cmd path m = some ((commandLine path m).take (maxCmdLength - 1)) := by
  have holds : Holds cmd [] := ⟨size, .inl rfl⟩
  obtain ⟨next, ran, -, held⟩ := foldlM_commandRound holds (not_overruns_iff.mp fits)
  rw [List.nil_append] at ran held
  have nonempty : (commandPieces path m).flatten ≠ [] := by
    unfold commandPieces
    simp [utf8]
  obtain ⟨rest, held⟩ := held.resolve_left nonempty
  have plain : ∀ b ∈ (commandLine path m).take (maxCmdLength - 1), decide (b ≠ 0) = true := by
    intro b member
    obtain ⟨piece, listed, inside⟩ := List.mem_flatten.mp (List.mem_of_mem_take member)
    apply decide_eq_true
    rintro rfl
    exact zero_not_mem_commandPieces path m piece listed inside
  have printed : (commandPieces path m).foldlM commandRound (cmd, 0) =
      some (next, (commandPieces path m).flatten.length) := ran
  rw [buildCmd, printed, Option.map_some, held]
  rw [commandLine] at plain ⊢
  rw [List.takeWhile_append_of_pos plain]
  simp

theorem overruns_length (overruns : Overruns path m) :
    maxCmdLength ≤ (commandLine path m).length := by
  cases overruns with
  | inl behind =>
      have part := (List.dropLast_sublist (commandPieces path m)).flatten.length_le
      rw [commandLine]
      omega
  | inr long =>
      obtain ⟨text, member, large⟩ := long
      have part := (List.sublist_flatten_of_mem member).length_le
      rw [commandLine]
      unfold maxCmdLength
      omega

include size in
theorem buildCmd_eq_none_iff : buildCmd cmd path m = none ↔ Overruns path m := by
  constructor
  · intro nothing
    by_contra fits
    rw [buildCmd_of_not_overruns size fits] at nothing
    cases nothing
  · exact buildCmd_of_overruns size

include size in
theorem buildCmd_eq_commandLine_iff : buildCmd cmd path m = some (commandLine path m) ↔
    (commandLine path m).length < maxCmdLength := by
  constructor
  · intro complete
    by_cases overruns : Overruns path m
    · rw [buildCmd_of_overruns size overruns] at complete
      cases complete
    · rw [buildCmd_of_not_overruns size overruns, Option.some.injEq] at complete
      have length := congrArg List.length complete
      rw [List.length_take] at length
      unfold maxCmdLength at *
      omega
  · intro short
    have fits : ¬ Overruns path m := fun overruns =>
      absurd (overruns_length overruns) (Nat.not_le.mpr short)
    rw [buildCmd_of_not_overruns size fits, List.take_of_length_le]
    omega

end Build

def settingWords (path : String) (m : WindowsModel) : List (List UInt8) :=
  [utf8 "cmd", utf8 "/C", utf8 "cd", printText (some path), utf8 "&&", printText m.exe,
    utf8 "--name", printText m.name, utf8 "--endtime", printNumber m.endTime, utf8 "--stepsize",
    printNumber m.stepSize, utf8 "--logger", (cString (itoa m.logLevel)).bytes, utf8 "--timeout",
    printNumber m.timeout]

def yamlWords (m : WindowsModel) : List (List UInt8) :=
  (m.yaml.map fun yaml => (printText (some yaml)).splitOn 32).getD []

theorem splitOn_cons_words {word : List UInt8} (rest : List UInt8) (plain : 32 ∉ word) :
    (word ++ 32 :: rest).splitOn 32 = word :: rest.splitOn 32 := by
  rw [List.splitOn_eq_splitOnP, List.splitOn_eq_splitOnP]
  apply List.splitOnP_append_cons_of_forall_mem
  · intro b member
    exact decide_eq_false fun blank => plain (blank ▸ member)
  · exact decide_eq_true rfl

theorem splitOn_word {word : List UInt8} (plain : 32 ∉ word) : word.splitOn 32 = [word] := by
  rw [List.splitOn_eq_splitOnP]
  apply List.splitOnP_eq_singleton
  intro b member
  exact decide_eq_false fun blank => plain (blank ▸ member)

theorem splitOn_words {words : List (List UInt8)} {word : List UInt8} (tail : List UInt8)
    (plain : ∀ w ∈ words, 32 ∉ w) (last : 32 ∉ word) :
    ((words.flatMap (· ++ [32])) ++ word ++ (32 :: tail)).splitOn 32 =
        words ++ word :: tail.splitOn 32 ∧
      ((words.flatMap (· ++ [32])) ++ word).splitOn 32 = words ++ [word] := by
  induction words with
  | nil => exact ⟨splitOn_cons_words tail last, splitOn_word last⟩
  | cons first words ih =>
      obtain ⟨longer, alone⟩ := ih fun w member => plain w (List.mem_cons_of_mem _ member)
      have own := plain first List.mem_cons_self
      constructor
      · have split := splitOn_cons_words (words.flatMap (· ++ [32]) ++ word ++ 32 :: tail) own
        rw [longer] at split
        simpa using split
      · have split := splitOn_cons_words (words.flatMap (· ++ [32]) ++ word) own
        rw [alone] at split
        simpa using split

theorem blank_not_mem_cString {text : String} (chars : ∀ c ∈ text.toList, numberChar c) :
    32 ∉ (cString text).bytes := by
  rw [bytes_cString chars]
  intro blank
  obtain ⟨c, member, same⟩ := List.mem_map.mp blank
  have byte := toNat_toUInt8 (chars c member)
  rw [same] at byte
  have number := chars c member
  have space : c = ' ' := by
    rw [← Char.ofNat_toNat c, ← byte]
    rfl
  rw [space] at number
  exact absurd number (by decide)

theorem blank_not_mem_printNumber (x : Double) : 32 ∉ printNumber x := by
  unfold printNumber printfF
  by_cases special : exponentOf x = 2047
  · rw [if_pos special]
    dsimp only
    split
    · split
      · decide
      · decide
    · split
      · decide
      · decide
  · rw [if_neg special]
    obtain ⟨whole, decimals, text, chars⟩ := toList_sprintfF special
    apply blank_not_mem_cString
    rw [text]
    exact chars

theorem blank_not_mem_itoa (n : Int) : 32 ∉ (cString (itoa n)).bytes := by
  apply blank_not_mem_cString
  intro c member
  rcases numberChar_of_mem_itoa member with digit | rfl
  · simp [numberChar, digit]
  · decide

structure SingleWords (path : String) (m : WindowsModel) : Prop where
  path : 32 ∉ printText (some path)
  exe : 32 ∉ printText m.exe
  name : 32 ∉ printText m.name

theorem splitOn_commandLine {path : String} {m : WindowsModel} (single : SingleWords path m) :
    (commandLine path m).splitOn 32 = settingWords path m ++ yamlWords m := by
  have literals : utf8 "cmd /C cd " = utf8 "cmd" ++ [32] ++ utf8 "/C" ++ [32] ++ utf8 "cd" ++ [32] ∧
      utf8 " && " = [32] ++ utf8 "&&" ++ [32] ∧ utf8 " --name " = [32] ++ utf8 "--name" ++ [32] ∧
      utf8 " --endtime " = [32] ++ utf8 "--endtime" ++ [32] ∧
      utf8 " --stepsize " = [32] ++ utf8 "--stepsize" ++ [32] ∧
      utf8 " --logger " = [32] ++ utf8 "--logger" ++ [32] ∧
      utf8 " --timeout " = [32] ++ utf8 "--timeout" ++ [32] ∧ utf8 " " = [32] := by decide
  obtain ⟨cd, both, name, endtime, stepsize, logger, timeout, blank⟩ := literals
  have options : 32 ∉ utf8 "cmd" ∧ 32 ∉ utf8 "/C" ∧ 32 ∉ utf8 "cd" ∧ 32 ∉ utf8 "&&" ∧
      32 ∉ utf8 "--name" ∧ 32 ∉ utf8 "--endtime" ∧ 32 ∉ utf8 "--stepsize" ∧
      32 ∉ utf8 "--logger" ∧ 32 ∉ utf8 "--timeout" := by decide
  have split : settingWords path m = (settingWords path m).dropLast ++ [printNumber m.timeout] :=
    rfl
  have plain : ∀ w ∈ (settingWords path m).dropLast, 32 ∉ w := by
    intro w member
    simp only [settingWords, List.dropLast_cons_cons, List.dropLast_singleton, List.mem_cons,
      List.not_mem_nil, or_false] at member
    rcases member with rfl | rfl | rfl | rfl | rfl | rfl | rfl | rfl | rfl | rfl | rfl | rfl |
      rfl | rfl | rfl <;>
      simp [options, single.path, single.exe, single.name, blank_not_mem_printNumber,
        blank_not_mem_itoa]
  rw [commandLine, commandPieces, cd, both, name, endtime, stepsize, logger, timeout, blank,
    yamlWords]
  cases m.yaml with
  | none =>
      have words := (splitOn_words [] plain (blank_not_mem_printNumber m.timeout)).2
      refine (congrArg (List.splitOn 32) ?_).trans (words.trans ?_)
      · simp [settingWords]
      · rw [← split]
        exact (List.append_nil _).symm
  | some yaml =>
      have words := (splitOn_words (printText (some yaml)) plain
        (blank_not_mem_printNumber m.timeout)).1
      refine (congrArg (List.splitOn 32) ?_).trans (words.trans ?_)
      · simp [settingWords]
      · conv_rhs => rw [split, List.append_assoc, List.singleton_append]
        rfl

def ModelNode.fileList (model : ModelNode) : List String := model.files.getD []

def namedFiles (models : List ModelNode) : List (List String) :=
  (models.filter fun model => model.name.isSome).map ModelNode.fileList

/-- The files for each process of a document. A shared process also has the stack. -/
def StackDoc.fileLists (doc : StackDoc) (stackName : String) : List (List String) :=
  if doc.kind = some "Stack" ∧ doc.models.getD [] ≠ [] then
    if doc.stacked.getD false then [stackName :: (namedFiles (doc.models.getD [])).flatten]
    else namedFiles (doc.models.getD [])
  else []

def PlainFile (file : String) : Prop := file ≠ "" ∧ 32 ∉ utf8 file ∧ 0 ∉ utf8 file

instance (file : String) : Decidable (PlainFile file) := inferInstanceAs (Decidable (_ ∧ _))

def joinedFiles (dest : Option String) (files : List String) : Option String :=
  files.foldl (fun yaml file => some (buildDelimitedStr yaml file " ")) dest

theorem joinedFiles_append (dest : Option String) (files more : List String) :
    joinedFiles dest (files ++ more) = joinedFiles (joinedFiles dest files) more :=
  List.foldl_append

theorem generateYamlFiles_eq (model : ModelNode) :
    generateYamlFiles model = joinedFiles none model.fileList := by
  unfold generateYamlFiles ModelNode.fileList
  cases model.files <;> rfl

theorem utf8_joined {text name : String} {names : List String}
    (letters : text.toList = name.toList ++ names.flatMap fun n => " ".toList ++ n.toList) :
    utf8 text = utf8 name ++ names.flatMap fun n => 32 :: utf8 n := by
  have blank : " ".toList.flatMap String.utf8EncodeChar = [32] := by decide
  have behind : (fun n : String => 32 :: utf8 n) =
      fun n => (" ".toList ++ n.toList).flatMap String.utf8EncodeChar := by
    funext n
    rw [List.flatMap_append, blank]
    rfl
  rw [utf8, letters, List.flatMap_append, List.flatMap_assoc, behind]
  rfl

theorem printText_of_no_nul {text : String} (no_nul : 0 ∉ utf8 text) :
    printText (some text) = utf8 text := by
  apply List.takeWhile_eq_self_iff.mpr
  intro b member
  apply decide_eq_true
  rintro rfl
  exact no_nul member

theorem splitOn_files {file : List UInt8} {files : List (List UInt8)}
    (plain : ∀ f ∈ file :: files, 32 ∉ f) :
    (file ++ files.flatMap (32 :: ·)).splitOn 32 = file :: files := by
  induction files generalizing file with
  | nil => simpa using splitOn_word (plain file List.mem_cons_self)
  | cons next files ih =>
      have rest := ih fun f member => plain f (List.mem_cons_of_mem _ member)
      have split := splitOn_cons_words (next ++ files.flatMap (32 :: ·))
        (plain file List.mem_cons_self)
      rw [rest] at split
      exact split

theorem yamlWords_joined {files : List String} (plain : ∀ f ∈ files, PlainFile f)
    {m : WindowsModel} (yaml : m.yaml = joinedFiles none files) :
    yamlWords m = files.map utf8 := by
  cases files with
  | nil =>
      rw [yamlWords, yaml]
      rfl
  | cons file files =>
      obtain ⟨text, joined, letters⟩ := foldl_buildDelimitedStr " " file files
        fun f member => (plain f member).1
      have bytes := utf8_joined letters
      have no_nul : 0 ∉ utf8 text := by
        rw [bytes, List.mem_append, List.mem_flatMap]
        rintro (first | ⟨f, member, later⟩)
        · exact (plain file List.mem_cons_self).2.2 first
        · cases List.mem_cons.mp later with
          | inl blank => exact absurd blank (by decide)
          | inr own => exact (plain f (List.mem_cons_of_mem _ member)).2.2 own
      have held : m.yaml = some text := yaml.trans joined
      have split : (utf8 text).splitOn 32 = utf8 file :: files.map utf8 := by
        rw [bytes, ← List.flatMap_map]
        apply splitOn_files
        intro f member
        rw [← List.map_cons] at member
        obtain ⟨own, listed, rfl⟩ := List.mem_map.mp member
        exact (plain own listed).2.1
      rw [yamlWords, held, Option.map_some, Option.getD_some, printText_of_no_nul no_nul, split]
      rfl

theorem joinedFiles_join {dest : String} (shown : dest ≠ "") {files : List String}
    (plain : ∀ f ∈ files, f ≠ "") :
    ∃ text, text ≠ "" ∧ joinedFiles (some dest) files = some text ∧
      ((joinedFiles none files).map fun yaml => buildDelimitedStr (some dest) yaml " ").getD dest =
        text := by
  cases files with
  | nil => exact ⟨dest, shown, rfl, rfl⟩
  | cons file files =>
      obtain ⟨yaml, joined, own⟩ := foldl_buildDelimitedStr " " file files plain
      obtain ⟨text, all, letters⟩ := foldl_buildDelimitedStr " " dest (file :: files) (by
        intro f member
        cases List.mem_cons.mp member with
        | inl same => exact same ▸ shown
        | inr later => exact plain f later)
      have own_joined : joinedFiles none (file :: files) = some yaml := joined
      have text_eq : buildDelimitedStr (some dest) yaml " " = text := by
        apply String.toList_inj.mp
        rw [letters, buildDelimitedStr, if_pos shown]
        simp [own]
      refine ⟨text, ?_, all, ?_⟩
      · rintro rfl
        apply shown
        rw [String.toList_empty, eq_comm, List.append_eq_nil_iff] at letters
        exact String.toList_eq_nil_iff.mp letters.1
      · rw [own_joined, Option.map_some, Option.getD_some, text_eq]

theorem stackedRound_files {models : List ModelNode} {dest : String} (shown : dest ≠ "")
    (plain : ∀ files ∈ namedFiles models, ∀ f ∈ files, f ≠ "") (names : Option String) :
    (models.foldl stackedRound (some dest, names)).1 =
      joinedFiles (some dest) (namedFiles models).flatten := by
  induction models generalizing dest names with
  | nil => rfl
  | cons model models ih =>
      rw [List.foldl_cons]
      cases named : model.name with
      | none =>
          have same : stackedRound (some dest, names) model = (some dest, names) := by
            rw [stackedRound, named]
          have skipped : namedFiles (model :: models) = namedFiles models := by
            simp [namedFiles, named]
          rw [same, skipped]
          rw [skipped] at plain
          exact ih shown plain names
      | some name =>
          have listed : namedFiles (model :: models) = model.fileList :: namedFiles models := by
            simp [namedFiles, named]
          rw [listed] at plain
          obtain ⟨text, visible, joined, round⟩ := joinedFiles_join shown
            (plain model.fileList List.mem_cons_self)
          have next : stackedRound (some dest, names) model =
              (some text, some (buildDelimitedStr names name ",")) := by
            rw [stackedRound, named]
            dsimp only
            rw [generateYamlFiles_eq]
            cases own : joinedFiles none model.fileList with
            | none =>
                rw [own] at round
                rw [← round]
                rfl
            | some yaml =>
                rw [own] at round
                rw [← round]
                rfl
          rw [next, listed, List.flatten_cons, joinedFiles_append, joined]
          exact ih visible (fun files member => plain files (List.mem_cons_of_mem _ member)) _

section Stacks

variable (input : ParserInput) (gwDoc : GatewayDoc)

theorem yamlWords_models {generate : ModelNode → Option WindowsModel} {models : List ModelNode}
    (generated : ∀ model, (model.name.isSome = false ∧ generate model = none) ∨
      ∃ m, model.name.isSome = true ∧ generate model = some m ∧ m.yaml = generateYamlFiles model)
    (plain : ∀ files ∈ namedFiles models, ∀ f ∈ files, PlainFile f) :
    (models.filterMap generate).map yamlWords = (namedFiles models).map (List.map utf8) := by
  induction models with
  | nil => rfl
  | cons model models ih =>
      rcases generated model with ⟨unnamed, nothing⟩ | ⟨m, named, made, yaml⟩
      · have skipped : namedFiles (model :: models) = namedFiles models := by
          simp [namedFiles, unnamed]
        rw [skipped] at plain ⊢
        rw [List.filterMap_cons_none nothing]
        exact ih plain
      · have listed : namedFiles (model :: models) = model.fileList :: namedFiles models := by
          simp [namedFiles, named]
        rw [listed] at plain ⊢
        rw [List.filterMap_cons_some made, List.map_cons, List.map_cons,
          ih fun files member => plain files (List.mem_cons_of_mem _ member),
          yamlWords_joined (plain model.fileList List.mem_cons_self)
            (yaml.trans (generateYamlFiles_eq model))]

theorem gwfmuModelGenerator_files (model : ModelNode) (doc : Option StackDoc) (exe : String) :
    (model.name.isSome = false ∧ gwfmuModelGenerator input gwDoc model doc exe = none) ∨
      ∃ m, model.name.isSome = true ∧ gwfmuModelGenerator input gwDoc model doc exe = some m ∧
        m.yaml = generateYamlFiles model := by
  unfold gwfmuModelGenerator
  cases model.name with
  | none => exact .inl ⟨rfl, rfl⟩
  | some text => exact .inr ⟨_, rfl, rfl, rfl⟩

theorem docModels_files {entry : String × StackDoc}
    (plain : ∀ files ∈ entry.2.fileLists entry.1, ∀ f ∈ files, PlainFile f) :
    (docModels input gwDoc entry).map yamlWords =
      (entry.2.fileLists entry.1).map (List.map utf8) := by
  obtain ⟨stackName, doc⟩ := entry
  unfold docModels parseStackDoc parseModels
  unfold StackDoc.fileLists at plain ⊢
  dsimp only at plain ⊢
  by_cases stack : doc.kind = some "Stack"
  · rw [if_pos stack]
    cases listed : doc.models with
    | none => simp
    | some models =>
        rw [listed] at plain
        simp only [stack, Option.getD_some, true_and, List.isEmpty_iff] at plain ⊢
        by_cases empty : models = []
        · simp [empty]
        · rw [if_pos empty] at plain
          rw [if_neg empty, if_pos empty]
          by_cases stacked : doc.stacked.getD false = true
          · rw [if_pos stacked] at plain
            rw [if_pos stacked, if_pos stacked]
            have files := plain _ List.mem_cons_self
            have yaml := stackedRound_files (files stackName List.mem_cons_self).1
              (fun own member f inside => (files f (List.mem_cons_of_mem _
                (List.mem_flatten.mpr ⟨own, member, inside⟩))).1) none
            have joined : joinedFiles none (stackName :: (namedFiles models).flatten) =
                joinedFiles (some stackName) (namedFiles models).flatten := rfl
            rw [← joined] at yaml
            exact congrArg (· :: []) (yamlWords_joined files yaml)
          · rw [if_neg stacked] at plain
            rw [if_neg stacked, if_neg stacked, buildModels_eq, List.nil_append]
            exact yamlWords_models (fun model => gwfmuModelGenerator_files input gwDoc model
              (some doc) "MODELC_EXE_PATH") plain
  · rw [if_neg stack, if_neg fun both => stack both.1]
    rfl

/-- The command line of a process of the stacks. Something is written outside of the buffer
exactly when the last piece begins behind its end, the command is complete exactly when it is
shorter than the buffer, and the words of a complete one are the settings of the process and the
files of its models. -/
theorem buildCmd_stackModels {cmd : List UInt8} (size : cmd.length = maxCmdLength) (path : String)
    (plain : ∀ entry ∈ stackDocs input gwDoc, ∀ files ∈ entry.2.fileLists entry.1, ∀ f ∈ files,
      PlainFile f) :
    List.Forall₂
      (fun m files => (buildCmd cmd path m = none ↔ Overruns path m) ∧
        (buildCmd cmd path m = some (commandLine path m) ↔
          (commandLine path m).length < maxCmdLength) ∧
        (SingleWords path m →
          (commandLine path m).splitOn 32 = settingWords path m ++ files.map utf8))
      ((parseModelStacks input gwDoc).getD [])
      ((stackDocs input gwDoc).flatMap fun entry => entry.2.fileLists entry.1) := by
  have words : ((parseModelStacks input gwDoc).getD []).map yamlWords =
      ((stackDocs input gwDoc).flatMap fun entry => entry.2.fileLists entry.1).map
        (List.map utf8) := by
    rw [parseModelStacks_eq, List.map_flatMap, List.map_flatMap]
    exact List.flatMap_congr fun entry member => docModels_files input gwDoc (plain entry member)
  have both : List.Forall₂ (fun m files => yamlWords m = List.map utf8 files)
      ((parseModelStacks input gwDoc).getD [])
      ((stackDocs input gwDoc).flatMap fun entry => entry.2.fileLists entry.1) := by
    have mapped := List.forall₂_eq_eq_eq ▸ words
    rw [List.forall₂_map_left_iff, List.forall₂_map_right_iff] at mapped
    exact mapped
  apply both.imp
  intro m files same
  refine ⟨buildCmd_eq_none_iff size, buildCmd_eq_commandLine_iff size, ?_⟩
  intro single
  rw [splitOn_commandLine single, same]

end Stacks

theorem buildCmd_stackModels_twoStacks :
    List.Forall₂
      (fun m files =>
        (buildCmd (List.replicate maxCmdLength 7) "resources" m = none ↔ Overruns "resources" m) ∧
        (buildCmd (List.replicate maxCmdLength 7) "resources" m = some (commandLine "resources" m) ↔
          (commandLine "resources" m).length < maxCmdLength) ∧
        (SingleWords "resources" m →
          (commandLine "resources" m).splitOn 32 =
            settingWords "resources" m ++ files.map utf8))
      ((parseModelStacks twoStackFiles twoStacks).getD [])
      ((stackDocs twoStackFiles twoStacks).flatMap fun entry => entry.2.fileLists entry.1) :=
  buildCmd_stackModels twoStackFiles twoStacks List.length_replicate "resources" (by decide +kernel)

end DseFmi.FmiGateway
