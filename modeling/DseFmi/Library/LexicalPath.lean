import Mathlib.Data.List.Basic
import Mathlib.Data.List.Induction
import Mathlib.Data.List.Infix
import Mathlib.Tactic.Common

/-!
# Lexical paths

A path is cleaned, joined and compared by its text alone. Empty parts and `.` are dropped,
and `..` drops the element before it; at the root there is nothing to drop.
-/

namespace DseFmi.Library

def splitPath (p : String) : List String := (p.toList.splitOn '/').map String.ofList

def joinParts (parts : List String) : String :=
  String.ofList (['/'].intercalate (parts.map String.toList))

def isRooted (p : String) : Bool := p.toList.head? = some '/'

structure LexPath where
  rooted : Bool
  elements : List String
  deriving DecidableEq, Repr

/-- What a part does to the elements before it, the last one first. -/
def reduce (rooted : Bool) (stack : List String) (part : String) : List String :=
  if part = "" ∨ part = "." then stack
  else if part = ".." then
    match stack with
    | [] => if rooted then [] else [".."]
    | top :: rest => if top = ".." then ".." :: top :: rest else rest
  else part :: stack

def parsePath (p : String) : LexPath where
  rooted := isRooted p
  elements := ((splitPath p).foldl (reduce (isRooted p)) []).reverse

def LexPath.text (q : LexPath) : String :=
  if q.rooted then "/" ++ joinParts q.elements
  else if q.elements = [] then "."
  else joinParts q.elements

def cleanPath (p : String) : String := (parsePath p).text

/-- Empty parts are ignored, and the result is clean. -/
def joinPath (parts : List String) : String :=
  match parts.filter (· ≠ "") with
  | [] => ""
  | parts => cleanPath (joinParts parts)

def dirPath (p : String) : String :=
  cleanPath (String.ofList (p.toList.reverse.dropWhile (· ≠ '/')).reverse)

/-- The last element, without the separators behind it. -/
def basePath (p : String) : String :=
  if p = "" then "."
  else
    let last := (p.toList.reverse.dropWhile (· = '/')).takeWhile (· ≠ '/')
    if last = [] then "/" else String.ofList last.reverse

/-- Two lists without their common first elements. -/
def dropCommon : List String → List String → List String × List String
  | b :: bs, t :: ts => if b = t then dropCommon bs ts else (b :: bs, t :: ts)
  | bs, ts => (bs, ts)

/-- The way from a path to another one, if the texts tell it. -/
def relPath (base target : String) : Option String :=
  if cleanPath target = cleanPath base then some "."
  else if (parsePath base).rooted ≠ (parsePath target).rooted then none
  else
    match dropCommon (parsePath base).elements (parsePath target).elements with
    | (up, down) =>
        if up.head? = some ".." then none
        else some (joinParts (up.map (fun _ => "..") ++ down))

/-- A path that leads to another one from a working directory. -/
def absPath (cwd p : String) : String := if isRooted p then cleanPath p else joinPath [cwd, p]

example : cleanPath "/a/../../b//./c/" = "/b/c" := by decide

example : relPath "/out/sim" "/out/simulation/x" = some "../simulation/x" := by decide

structure IsName (e : String) : Prop where
  nonempty : e ≠ ""
  current : e ≠ "."
  parent : e ≠ ".."
  plain : '/' ∉ e.toList

theorem ofList_map_toList (parts : List String) :
    (parts.map String.toList).map String.ofList = parts := by
  simp [List.map_map]

theorem splitPath_joinParts {parts : List String} (some : parts ≠ [])
    (plain : ∀ e ∈ parts, '/' ∉ e.toList) : splitPath (joinParts parts) = parts := by
  have separated : ∀ l ∈ parts.map String.toList, '/' ∉ l := by
    intro l member
    obtain ⟨e, listed, rfl⟩ := List.mem_map.mp member
    exact plain e listed
  have nonempty : parts.map String.toList ≠ [] := fun none => some (List.map_eq_nil_iff.mp none)
  rw [splitPath, joinParts, String.toList_ofList, List.splitOn_intercalate '/' separated nonempty,
    ofList_map_toList]

theorem splitPath_append (p q : String) :
    splitPath (p ++ "/" ++ q) = splitPath p ++ splitPath q := by
  have text : (p ++ "/" ++ q).toList = p.toList ++ '/' :: q.toList := by
    rw [String.toList_append, String.toList_append, List.append_assoc]
    rfl
  rw [splitPath, text, List.splitOn_append_cons_self, List.map_append, splitPath, splitPath]

theorem splitPath_rooted (q : String) : splitPath ("/" ++ q) = "" :: splitPath q := by
  have text : "/" ++ q = "" ++ "/" ++ q := by simp
  rw [text, splitPath_append]
  rfl

theorem isRooted_rooted (q : String) : isRooted ("/" ++ q) = true := by
  have text : ("/" ++ q).toList = '/' :: q.toList := by
    rw [String.toList_append]
    rfl
  rw [isRooted, text]
  rfl

theorem isRooted_append {p : String} (rooted : isRooted p = true) (q : String) :
    isRooted (p ++ q) = true := by
  have first : p.toList.head? = some '/' := of_decide_eq_true rooted
  rw [isRooted, String.toList_append, List.head?_append, first]
  rfl

/-- Some steps up and then names; a rooted path has no steps up. -/
def Clean (rooted : Bool) (elements : List String) : Prop :=
  ∃ ups names, elements = List.replicate ups ".." ++ names ∧ (∀ e ∈ names, IsName e) ∧
    (rooted = true → ups = 0)

theorem clean_nil (rooted : Bool) : Clean rooted [] :=
  ⟨0, [], rfl, fun _ member => absurd member List.not_mem_nil, fun _ => rfl⟩

theorem Clean.plain {rooted : Bool} {elements : List String} (clean : Clean rooted elements) :
    ∀ e ∈ elements, '/' ∉ e.toList := by
  obtain ⟨ups, names, rfl, named, _⟩ := clean
  intro e member
  rcases List.mem_append.mp member with up | name
  · rw [List.eq_of_mem_replicate up]
    decide
  · exact (named e name).plain

theorem Clean.isName {elements : List String} (clean : Clean true elements) :
    ∀ e ∈ elements, IsName e := by
  obtain ⟨ups, names, rfl, named, rooted⟩ := clean
  rw [rooted rfl]
  exact named

theorem clean_of_names {rooted : Bool} {names : List String} (named : ∀ e ∈ names, IsName e) :
    Clean rooted names := ⟨0, names, rfl, named, fun _ => rfl⟩

theorem Clean.upper {elements : List String} {e : String} (clean : Clean true (elements ++ [e])) :
    Clean true elements :=
  clean_of_names fun other member => clean.isName other (List.mem_append_left _ member)

/-- The elements stay clean with each part; the names are those of the stack, which has its
last element first. -/
theorem Clean.reduce {rooted : Bool} {stack : List String} (clean : Clean rooted stack.reverse)
    {part : String} (plain : '/' ∉ part.toList) :
    Clean rooted (Library.reduce rooted stack part).reverse := by
  unfold Library.reduce
  split
  · exact clean
  next kept =>
    obtain ⟨nonempty, current⟩ := not_or.mp kept
    obtain ⟨ups, names, same, named, fixed⟩ := clean
    split
    · cases names using List.reverseRecOn with
      | nil =>
          have stacked : stack = List.replicate ups ".." := by
            rw [List.append_nil] at same
            rw [← List.reverse_reverse stack, same, List.reverse_replicate]
          cases ups with
          | zero =>
              rw [stacked]
              cases rooted with
              | true => exact clean_nil true
              | false => exact ⟨1, [], rfl, named, fun root => nomatch root⟩
          | succ ups =>
              rw [stacked, List.replicate_succ]
              refine ⟨ups + 2, [], ?_, named, fun root =>
                absurd (fixed root) (Nat.succ_ne_zero ups)⟩
              dsimp only
              rw [if_pos rfl, ← List.replicate_succ, ← List.replicate_succ, List.reverse_replicate,
                List.append_nil]
      | append_singleton names name =>
          have stacked : stack = name :: (List.replicate ups ".." ++ names).reverse := by
            rw [← List.reverse_reverse stack, same, ← List.append_assoc, List.reverse_append]
            rfl
          have top := (named name (List.mem_append_right _ (List.mem_singleton.mpr rfl))).parent
          rw [stacked]
          dsimp only
          rw [if_neg top, List.reverse_reverse]
          exact ⟨ups, names, rfl, fun e member => named e (List.mem_append_left _ member), fixed⟩
    next name =>
      refine ⟨ups, names ++ [part], ?_, ?_, fixed⟩
      · rw [List.reverse_cons, same, List.append_assoc]
      · intro e member
        rcases List.mem_append.mp member with old | new
        · exact named e old
        · rw [List.mem_singleton.mp new]
          exact ⟨nonempty, current, name, plain⟩

theorem Clean.foldl_reduce {rooted : Bool} {stack parts : List String}
    (clean : Clean rooted stack.reverse) (plain : ∀ e ∈ parts, '/' ∉ e.toList) :
    Clean rooted (parts.foldl (Library.reduce rooted) stack).reverse := by
  induction parts generalizing stack with
  | nil => exact clean
  | cons part parts ih =>
      apply ih (clean.reduce (plain part List.mem_cons_self))
      exact fun e member => plain e (List.mem_cons_of_mem part member)

theorem not_mem_of_mem_splitOn {α : Type} [BEq α] [LawfulBEq α] {sep : α} {xs l : List α}
    (member : l ∈ xs.splitOn sep) : sep ∉ l := by
  induction xs generalizing l with
  | nil =>
      rw [List.splitOn_nil, List.mem_singleton] at member
      rw [member]
      exact List.not_mem_nil
  | cons x xs ih =>
      rw [List.splitOn_cons_eq_if_modifyHead] at member
      split at member
      · rcases List.mem_cons.mp member with rfl | later
        · exact List.not_mem_nil
        · exact ih later
      next other =>
        obtain ⟨first, rest, parts⟩ := List.exists_cons_of_ne_nil (List.splitOn_ne_nil sep xs)
        rw [parts, List.modifyHead_cons] at member
        rcases List.mem_cons.mp member with rfl | later
        · intro here
          rcases List.mem_cons.mp here with same | there
          · exact other (beq_iff_eq.mpr same.symm)
          · exact ih (parts ▸ List.mem_cons_self) there
        · exact ih (parts ▸ List.mem_cons_of_mem first later)

theorem plain_splitPath (p : String) : ∀ e ∈ splitPath p, '/' ∉ e.toList := by
  intro e member
  obtain ⟨l, listed, rfl⟩ := List.mem_map.mp member
  rw [String.toList_ofList]
  exact not_mem_of_mem_splitOn listed

theorem clean_parsePath (p : String) : Clean (isRooted p) (parsePath p).elements :=
  (clean_nil (isRooted p)).foldl_reduce (plain_splitPath p)

theorem foldl_reduce_names {rooted : Bool} {stack names : List String}
    (named : ∀ e ∈ names, IsName e) :
    names.foldl (reduce rooted) stack = names.reverse ++ stack := by
  induction names generalizing stack with
  | nil => rfl
  | cons name names ih =>
      have first := named name List.mem_cons_self
      have pushed : reduce rooted stack name = name :: stack := by
        rw [reduce.eq_def, if_neg (not_or.mpr ⟨first.nonempty, first.current⟩), if_neg first.parent]
      rw [List.foldl_cons, pushed, ih fun e member => named e (List.mem_cons_of_mem name member),
        List.reverse_cons, List.append_assoc]
      rfl

theorem foldl_reduce_ups (k ups : Nat) :
    (List.replicate ups "..").foldl (reduce false) (List.replicate k "..") =
      List.replicate (ups + k) ".." := by
  induction ups generalizing k with
  | zero => rw [Nat.zero_add, List.replicate_zero, List.foldl_nil]
  | succ ups ih =>
      have climbed : reduce false (List.replicate k "..") ".." = List.replicate (k + 1) ".." := by
        cases k with
        | zero => rfl
        | succ k => rfl
      rw [List.replicate_succ, List.foldl_cons, climbed, ih]
      congr 1
      omega

theorem Clean.ne_empty {rooted : Bool} {elements : List String} (clean : Clean rooted elements) :
    ∀ e ∈ elements, e ≠ "" := by
  obtain ⟨ups, names, rfl, named, _⟩ := clean
  intro e member
  rcases List.mem_append.mp member with up | name
  · rw [List.eq_of_mem_replicate up]
    decide
  · exact (named e name).nonempty

theorem foldl_reduce_clean {rooted : Bool} {elements : List String}
    (clean : Clean rooted elements) : (elements.foldl (reduce rooted) []).reverse = elements := by
  obtain ⟨ups, names, rfl, named, fixed⟩ := clean
  have climbed : (List.replicate ups "..").foldl (reduce rooted) [] = List.replicate ups ".." := by
    cases rooted with
    | true =>
        rw [fixed rfl]
        rfl
    | false => exact foldl_reduce_ups 0 ups
  rw [List.foldl_append, climbed, foldl_reduce_names named, List.reverse_append,
    List.reverse_reverse, List.reverse_replicate]

theorem eq_rooted_of_isRooted {p : String} (rooted : isRooted p = true) : ∃ q, p = "/" ++ q := by
  have first : p.toList.head? = some '/' := of_decide_eq_true rooted
  obtain ⟨rest, chars⟩ := List.head?_eq_some_iff.mp first
  refine ⟨String.ofList rest, ?_⟩
  rw [← String.toList_inj, String.toList_append, String.toList_ofList, String.toList_ofList, chars]
  rfl

theorem isRooted_joinParts {parts : List String} (some : parts ≠ [])
    (plain : ∀ e ∈ parts, '/' ∉ e.toList) (nonempty : ∀ e ∈ parts, e ≠ "") :
    isRooted (joinParts parts) = false := by
  apply Bool.eq_false_iff.mpr
  intro rooted
  obtain ⟨q, text⟩ := eq_rooted_of_isRooted rooted
  have split := splitPath_joinParts some plain
  rw [text, splitPath_rooted] at split
  exact nonempty "" (split ▸ List.mem_cons_self) rfl

theorem parsePath_text {q : LexPath} (clean : Clean q.rooted q.elements) :
    parsePath q.text = q := by
  obtain ⟨rooted, elements⟩ := q
  have kept := foldl_reduce_clean clean
  cases rooted with
  | true =>
      have split : ((splitPath ("/" ++ joinParts elements)).foldl (reduce true) []).reverse =
          elements := by
        rw [splitPath_rooted]
        cases elements with
        | nil => rfl
        | cons e elements =>
            rw [splitPath_joinParts (List.cons_ne_nil _ _) clean.plain]
            exact kept
      rw [LexPath.text, if_pos rfl, parsePath, isRooted_rooted, split]
  | false =>
      cases elements with
      | nil => rfl
      | cons e elements =>
          have some := List.cons_ne_nil e elements
          rw [LexPath.text, if_neg Bool.false_ne_true, if_neg some, parsePath,
            isRooted_joinParts some clean.plain clean.ne_empty,
            splitPath_joinParts some clean.plain, kept]

theorem parsePath_cleanPath (p : String) : parsePath (cleanPath p) = parsePath p :=
  parsePath_text (clean_parsePath p)

def Climbs (rel : String) : Prop := rel = ".." ∨ ['.', '.', '/'] <+: rel.toList

instance (rel : String) : Decidable (Climbs rel) := inferInstanceAs (Decidable (_ ∨ _))

theorem joinParts_cons {part : String} {parts : List String} (some : parts ≠ []) :
    joinParts (part :: parts) = part ++ "/" ++ joinParts parts := by
  have others : parts.map String.toList ≠ [] := fun none => some (List.map_eq_nil_iff.mp none)
  rw [← String.toList_inj, joinParts, joinParts, List.map_cons,
    List.intercalate_cons_of_ne_nil others, String.toList_ofList, String.toList_append,
    String.toList_append, String.toList_ofList, String.toList_ofList]

theorem joinParts_singleton (part : String) : joinParts [part] = part := by
  rw [joinParts, List.map_singleton, List.intercalate_singleton, String.ofList_toList]

theorem climbs_joinParts (parts : List String) : Climbs (joinParts (".." :: parts)) := by
  cases parts with
  | nil => exact .inl (joinParts_singleton _)
  | cons part parts =>
      rw [joinParts_cons (List.cons_ne_nil part parts)]
      refine .inr ⟨(joinParts (part :: parts)).toList, ?_⟩
      rw [String.toList_append, String.toList_append]
      rfl

theorem not_climbs_joinParts {parts : List String} (some : parts ≠ [])
    (plain : ∀ e ∈ parts, '/' ∉ e.toList) (names : ".." ∉ parts) :
    ¬ Climbs (joinParts parts) := by
  have split := splitPath_joinParts some plain
  rintro (up | ⟨rest, chars⟩)
  · rw [up] at split
    exact names (split ▸ List.mem_singleton.mpr rfl)
  · have text : joinParts parts = ".." ++ "/" ++ String.ofList rest := by
      rw [← String.toList_inj, ← chars, String.toList_append, String.toList_append,
        String.toList_ofList, String.toList_ofList, String.toList_ofList]
      rfl
    rw [text, splitPath_append] at split
    exact names (split ▸ List.mem_append_left _ (List.mem_singleton.mpr rfl))

theorem dropCommon_spec (bs ts : List String) :
    ∃ common, bs = common ++ (dropCommon bs ts).1 ∧ ts = common ++ (dropCommon bs ts).2 ∧
      ((dropCommon bs ts).1 = [] ↔ bs <+: ts) := by
  induction bs generalizing ts with
  | nil => exact ⟨[], rfl, rfl, fun _ => List.nil_prefix, fun _ => rfl⟩
  | cons b bs ih =>
      cases ts with
      | nil => exact ⟨[], rfl, rfl, (nomatch ·), fun short => nomatch List.prefix_nil.mp short⟩
      | cons t ts =>
          rw [dropCommon]
          split
          next same =>
            obtain ⟨common, hbs, hts, inside⟩ := ih ts
            refine ⟨b :: common, ?_, ?_, ?_⟩
            · rw [List.cons_append, ← hbs]
            · rw [List.cons_append, ← hts, same]
            · rw [inside, List.cons_prefix_cons, and_iff_right same]
          next other =>
            refine ⟨[], rfl, rfl, (nomatch ·), fun inside => ?_⟩
            exact absurd (List.cons_prefix_cons.mp inside).1 other

/-- For rooted paths, the relative path exists, and it climbs exactly when the target is not
at or below the base. -/
theorem relPath_rooted {base target : String} (rooted : (parsePath base).rooted = true)
    (targetRooted : (parsePath target).rooted = true) :
    ∃ rel, relPath base target = some rel ∧
      (Climbs rel ↔ ¬ (parsePath base).elements <+: (parsePath target).elements) := by
  have baseClean := clean_parsePath base
  have targetClean := clean_parsePath target
  rw [show isRooted base = true from rooted] at baseClean
  rw [show isRooted target = true from targetRooted] at targetClean
  rw [relPath]
  split
  next same =>
    have equal : parsePath target = parsePath base := by
      rw [← parsePath_cleanPath target, same, parsePath_cleanPath]
    refine ⟨_, rfl, ?_⟩
    rw [equal]
    exact ⟨fun climbs => absurd climbs (by decide), fun outside => absurd List.prefix_rfl outside⟩
  next different =>
    rw [rooted, targetRooted, if_neg (not_not_intro rfl)]
    obtain ⟨common, hbase, htarget, inside⟩ :=
      dropCommon_spec (parsePath base).elements (parsePath target).elements
    generalize dropCommon (parsePath base).elements (parsePath target).elements = parts at *
    obtain ⟨up, down⟩ := parts
    dsimp only at hbase htarget inside ⊢
    have upNames : ".." ∉ up := fun member =>
      (baseClean.isName ".." (hbase ▸ List.mem_append_right common member)).parent rfl
    have downNames : ∀ e ∈ down, IsName e := fun e member =>
      targetClean.isName e (htarget ▸ List.mem_append_right common member)
    have noError : up.head? ≠ some ".." := fun first => upNames (List.mem_of_head? first)
    rw [if_neg noError]
    refine ⟨_, rfl, ?_⟩
    rw [← inside]
    cases up with
    | nil =>
        have below : down ≠ [] := by
          intro none
          apply different
          rw [cleanPath, cleanPath, LexPath.text, LexPath.text, rooted, targetRooted, hbase,
            htarget, none]
        have stays := not_climbs_joinParts below (fun e member => (downNames e member).plain)
          fun member => (downNames ".." member).parent rfl
        exact ⟨fun climbs => absurd climbs stays, fun outside => absurd rfl outside⟩
    | cons u up => exact ⟨fun _ => List.cons_ne_nil u up, fun _ => climbs_joinParts _⟩

theorem isRooted_cleanPath (p : String) : isRooted (cleanPath p) = isRooted p :=
  congrArg LexPath.rooted (parsePath_cleanPath p)

theorem joinPath_rooted {base : String} (rooted : isRooted base = true) (p : String) :
    ∃ q, joinPath [base, p] = cleanPath (base ++ q) := by
  have some : base ≠ "" := by
    rintro rfl
    exact absurd rooted (by decide)
  by_cases empty : p = ""
  · have kept : [base, p].filter (· ≠ "") = [base] := by simp [some, empty]
    refine ⟨"", ?_⟩
    rw [joinPath, kept, String.append_empty]
    exact congrArg cleanPath (joinParts_singleton base)
  · have kept : [base, p].filter (· ≠ "") = [base, p] := by simp [some, empty]
    refine ⟨"/" ++ p, ?_⟩
    rw [joinPath, kept, ← String.append_assoc]
    dsimp only
    rw [joinParts_cons (List.cons_ne_nil p []), joinParts_singleton]

theorem isRooted_joinPath {base : String} (rooted : isRooted base = true) (p : String) :
    isRooted (joinPath [base, p]) = true := by
  obtain ⟨q, joined⟩ := joinPath_rooted rooted p
  rw [joined, isRooted_cleanPath]
  exact isRooted_append rooted q

theorem joinParts_concat {parts : List String} (some : parts ≠ []) (part : String) :
    joinParts (parts ++ [part]) = joinParts parts ++ "/" ++ part := by
  induction parts with
  | nil => exact absurd rfl some
  | cons first parts ih =>
      cases parts with
      | nil => rw [List.singleton_append, joinParts_cons (List.cons_ne_nil part []),
          joinParts_singleton, joinParts_singleton]
      | cons second parts =>
          have more := List.cons_ne_nil second parts
          rw [List.cons_append, joinParts_cons (List.append_ne_nil_of_left_ne_nil more _),
            ih more, joinParts_cons more]
          simp only [String.append_assoc]

/-- The text of a path is the text of its directory, a separator and its last element. -/
theorem dirPath_append {p e : String} (plain : '/' ∉ e.toList) :
    dirPath (p ++ "/" ++ e) = cleanPath (p ++ "/") := by
  have chars : (p ++ "/" ++ e).toList.reverse = e.toList.reverse ++ '/' :: p.toList.reverse := by
    rw [String.toList_append, String.toList_append, List.reverse_append, List.reverse_append]
    rfl
  have dropped : (e.toList.reverse ++ '/' :: p.toList.reverse).dropWhile (· ≠ '/') =
      '/' :: p.toList.reverse := by
    rw [List.dropWhile_append_of_pos]
    · exact List.dropWhile_cons_of_neg (by decide)
    · intro c member
      apply decide_eq_true
      rintro rfl
      exact plain (List.mem_reverse.mp member)
  rw [dirPath, chars, dropped, List.reverse_cons, List.reverse_reverse]
  congr 1
  rw [← String.toList_inj, String.toList_ofList, String.toList_append]
  rfl

theorem isRooted_append_of_ne {p : String} (nonempty : p ≠ "") (q : String) :
    isRooted (p ++ q) = isRooted p := by
  have chars : p.toList ≠ [] := fun none => nonempty (String.toList_eq_nil_iff.mp none)
  rw [isRooted, isRooted, String.toList_append, List.head?_append_of_ne_nil _ chars]

theorem parsePath_slash {p : String} (nonempty : p ≠ "") : parsePath (p ++ "/") = parsePath p := by
  have text : p ++ "/" = p ++ "/" ++ "" := (String.append_empty).symm
  have parts : splitPath (p ++ "/") = splitPath p ++ [""] := by
    rw [text, splitPath_append]
    rfl
  rw [parsePath, parsePath, isRooted_append_of_ne nonempty, parts, List.foldl_append]
  rfl

/-- The directory of a clean path has its elements but for the last one. -/
theorem parsePath_dirPath {elements : List String} (clean : Clean true elements) :
    parsePath (dirPath (LexPath.text ⟨true, elements⟩)) = ⟨true, elements.dropLast⟩ := by
  cases elements using List.reverseRecOn with
  | nil => rfl
  | append_singleton elements e =>
      have plain := clean.plain e (List.mem_append_right _ (List.mem_singleton.mpr rfl))
      rw [List.dropLast_concat, LexPath.text, if_pos rfl]
      dsimp only
      by_cases none : elements = []
      · have text : "/" ++ joinParts ([] ++ [e]) = "" ++ "/" ++ e := by
          rw [List.nil_append, joinParts_singleton, String.empty_append]
        rw [none, text, dirPath_append plain]
        rfl
      · have text : "/" ++ joinParts (elements ++ [e]) =
            "/" ++ joinParts elements ++ "/" ++ e := by
          rw [joinParts_concat none]
          simp only [String.append_assoc]
        have nonempty : "/" ++ joinParts elements ≠ "" := by
          intro empty
          exact Bool.false_ne_true ((congrArg isRooted empty).symm.trans (isRooted_rooted _))
        rw [text, dirPath_append plain, parsePath_cleanPath, parsePath_slash nonempty]
        exact parsePath_text (q := ⟨true, elements⟩) clean.upper

end DseFmi.Library
