import DseFmi.Library.LexicalPath

/-!
# Paths below a path

A name that is joined to a path becomes its last element, whatever text the path has. The
same holds of the path to which it leads from a working directory.
-/

namespace DseFmi.Library

@[simp] theorem rooted_parsePath (p : String) : (parsePath p).rooted = isRooted p := rfl

theorem IsName.splitPath {name : String} (named : IsName name) : splitPath name = [name] := by
  have alone := splitPath_joinParts (List.cons_ne_nil name [])
    fun e member => List.mem_singleton.mp member ▸ named.plain
  rw [joinParts_singleton] at alone
  exact alone

theorem IsName.isRooted {name : String} (named : IsName name) : isRooted name = false := by
  have relative := isRooted_joinParts (List.cons_ne_nil name [])
    (fun e member => List.mem_singleton.mp member ▸ named.plain)
    fun e member => List.mem_singleton.mp member ▸ named.nonempty
  rw [joinParts_singleton] at relative
  exact relative

theorem IsName.reduce {name : String} (named : IsName name) (rooted : Bool)
    (stack : List String) : reduce rooted stack name = name :: stack := by
  have all : ∀ e ∈ [name], IsName e := fun _ member => List.mem_singleton.mp member ▸ named
  exact foldl_reduce_names all

theorem joinPath_pair {p q : String} (first : p ≠ "") (second : q ≠ "") :
    joinPath [p, q] = cleanPath (p ++ "/" ++ q) := by
  have kept : [p, q].filter (· ≠ "") = [p, q] := by simp [first, second]
  rw [joinPath, kept]
  dsimp only
  rw [joinParts_cons (List.cons_ne_nil q []), joinParts_singleton]

theorem joinPath_empty {q : String} (nonempty : q ≠ "") : joinPath ["", q] = cleanPath q := by
  have kept : ["", q].filter (· ≠ "") = [q] := by simp [nonempty]
  rw [joinPath, kept]
  exact congrArg cleanPath (joinParts_singleton q)

theorem parsePath_append_name {p name : String} (nonempty : p ≠ "") (named : IsName name) :
    parsePath (p ++ "/" ++ name) = ⟨isRooted p, (parsePath p).elements ++ [name]⟩ := by
  rw [parsePath, splitPath_append, String.append_assoc, isRooted_append_of_ne nonempty,
    named.splitPath, List.foldl_append, List.foldl_cons, List.foldl_nil, named.reduce,
    List.reverse_cons]
  rfl

theorem joinPath_name (p : String) {name : String} (named : IsName name) :
    joinPath [p, name] = LexPath.text ⟨isRooted p, (parsePath p).elements ++ [name]⟩ := by
  by_cases empty : p = ""
  · rw [empty, joinPath_empty named.nonempty, cleanPath, parsePath, named.isRooted, named.splitPath,
      List.foldl_cons, List.foldl_nil, named.reduce]
    rfl
  · rw [joinPath_pair empty named.nonempty, cleanPath, parsePath_append_name empty named]

theorem parsePath_joinPath_name (p : String) {name : String} (named : IsName name) :
    parsePath (joinPath [p, name]) = ⟨isRooted p, (parsePath p).elements ++ [name]⟩ := by
  by_cases empty : p = ""
  · rw [empty, joinPath_empty named.nonempty, parsePath_cleanPath, parsePath, named.isRooted,
      named.splitPath, List.foldl_cons, List.foldl_nil, named.reduce]
    rfl
  · rw [joinPath_pair empty named.nonempty, parsePath_cleanPath, parsePath_append_name empty named]

theorem basePath_append_name (p : String) {name : String} (named : IsName name) :
    basePath (p ++ "/" ++ name) = name ∧ basePath name = name := by
  have last : ∀ c ∈ name.toList.reverse, c ≠ '/' := by
    rintro c member rfl
    exact named.plain (List.mem_reverse.mp member)
  obtain ⟨c, cs, chars⟩ : ∃ c cs, name.toList.reverse = c :: cs := by
    apply List.exists_cons_of_ne_nil
    intro none
    exact named.nonempty (String.toList_eq_nil_iff.mp (List.reverse_eq_nil_iff.mp none))
  have kept : ∀ rest, (name.toList.reverse ++ rest).dropWhile (· = '/') =
      name.toList.reverse ++ rest := by
    intro rest
    have other : c ≠ '/' := last c (chars ▸ List.mem_cons_self)
    rw [chars, List.cons_append, List.dropWhile_cons_of_neg (by simpa using other)]
  have whole : ∀ rest, rest = [] ∨ rest.head? = some '/' →
      (name.toList.reverse ++ rest).takeWhile (· ≠ '/') = name.toList.reverse := by
    intro rest ends
    rw [List.takeWhile_append_of_pos fun c member => decide_eq_true (last c member)]
    rcases ends with rfl | first
    · exact List.append_nil _
    · obtain ⟨tail, rfl⟩ := List.head?_eq_some_iff.mp first
      rw [List.takeWhile_cons_of_neg (by decide), List.append_nil]
  have some : name.toList.reverse ≠ [] := chars ▸ List.cons_ne_nil c cs
  constructor
  · have text : (p ++ "/" ++ name).toList.reverse =
        name.toList.reverse ++ '/' :: p.toList.reverse := by
      rw [String.toList_append, String.toList_append, List.reverse_append, List.reverse_append]
      rfl
    have long : p ++ "/" ++ name ≠ "" := by
      intro none
      have lengths := congrArg (List.length ∘ String.toList) none
      simp at lengths
    rw [basePath, if_neg long, text, kept]
    dsimp only
    rw [whole _ (.inr rfl), if_neg some, List.reverse_reverse, String.ofList_toList]
  · have drop := kept []
    have take := whole [] (.inl rfl)
    rw [List.append_nil] at drop take
    rw [basePath, if_neg named.nonempty, drop]
    dsimp only
    rw [take, if_neg some, List.reverse_reverse, String.ofList_toList]

theorem basePath_joinPath_name (p : String) {name : String} (named : IsName name) :
    basePath (joinPath [p, name]) = name := by
  rw [joinPath_name p named]
  generalize (parsePath p).elements = elements
  have root : "/" ++ joinParts ([] ++ [name]) = "" ++ "/" ++ name := by
    rw [List.nil_append, joinParts_singleton, String.empty_append]
  cases isRooted p with
  | true =>
      rw [LexPath.text, if_pos rfl]
      dsimp only
      by_cases none : elements = []
      · rw [none, root]
        exact (basePath_append_name "" named).1
      · rw [joinParts_concat none, ← String.append_assoc, ← String.append_assoc]
        exact (basePath_append_name _ named).1
  | false =>
      rw [LexPath.text, if_neg Bool.false_ne_true, if_neg (by simp)]
      dsimp only
      by_cases none : elements = []
      · rw [none, List.nil_append, joinParts_singleton]
        exact (basePath_append_name "" named).2
      · rw [joinParts_concat none]
        exact (basePath_append_name _ named).1

theorem basePath_ne_empty (p : String) : basePath p ≠ "" := by
  rw [basePath]
  split
  · decide
  · dsimp only
    split
    · decide
    next some =>
      intro none
      apply some
      rw [← List.reverse_eq_nil_iff, ← String.toList_ofList (l := List.reverse _), none]
      rfl

theorem dropCommon_append (elements names : List String) :
    dropCommon elements (elements ++ names) = ([], names) := by
  induction elements with
  | nil =>
      cases names with
      | nil => rfl
      | cons name names => rfl
  | cons e elements ih =>
      rw [List.cons_append, dropCommon, if_pos rfl]
      exact ih

/-- The way from a path to one with more elements is made of these. -/
theorem relPath_below {p q : String} {names : List String} (below : names ≠ [])
    (longer : parsePath q = ⟨isRooted p, (parsePath p).elements ++ names⟩) :
    relPath p q = some (joinParts names) := by
  have different : cleanPath q ≠ cleanPath p := by
    intro same
    have equal : parsePath q = parsePath p := by
      rw [← parsePath_cleanPath q, same, parsePath_cleanPath]
    rw [longer] at equal
    exact below (List.append_right_eq_self.mp (congrArg LexPath.elements equal))
  have kind : ¬ (parsePath p).rooted ≠ (parsePath q).rooted := by
    rw [longer]
    exact not_not_intro rfl
  rw [relPath, if_neg different, if_neg kind, longer, dropCommon_append]
  rfl

theorem cleanPath_joinParts {names : List String} (below : names ≠ [])
    (named : ∀ e ∈ names, IsName e) : cleanPath (joinParts names) = joinParts names := by
  have text : LexPath.text ⟨false, names⟩ = joinParts names := by
    rw [LexPath.text, if_neg Bool.false_ne_true, if_neg below]
  rw [← text, cleanPath, parsePath_text (clean_of_names named)]

theorem joinParts_ne_empty {names : List String} (below : names ≠ [])
    (named : ∀ e ∈ names, IsName e) : joinParts names ≠ "" := by
  intro none
  have parts := splitPath_joinParts below fun e member => (named e member).plain
  rw [none] at parts
  exact (named "" (parts ▸ List.mem_cons_self)).nonempty rfl

theorem cleanPath_joinParts_slash {names : List String} (below : names ≠ [])
    (named : ∀ e ∈ names, IsName e) : cleanPath (joinParts names ++ "/") = joinParts names := by
  rw [cleanPath, parsePath_slash (joinParts_ne_empty below named)]
  exact cleanPath_joinParts below named

theorem parsePath_joinPath_names {base : String} {names : List String}
    (rooted : isRooted base = true) (below : names ≠ []) (named : ∀ e ∈ names, IsName e) :
    parsePath (joinPath [base, joinParts names]) = ⟨true, (parsePath base).elements ++ names⟩ := by
  have nonempty : base ≠ "" := by
    rintro rfl
    exact absurd rooted (by decide)
  rw [joinPath_pair nonempty (joinParts_ne_empty below named), parsePath_cleanPath, parsePath,
    splitPath_append, String.append_assoc, isRooted_append_of_ne nonempty, rooted,
    splitPath_joinParts below fun e member => (named e member).plain, List.foldl_append,
    foldl_reduce_names named, List.reverse_append, List.reverse_reverse, parsePath, rooted]

/-- What is left of the parts of a relative path leads to the same place. -/
theorem foldl_reduce_reduced {parts : List String} (plain : ∀ e ∈ parts, '/' ∉ e.toList)
    (stack : List String) :
    (parts.foldl (reduce false) []).reverse.foldl (reduce true) stack =
      parts.foldl (reduce true) stack := by
  induction parts using List.reverseRecOn with
  | nil => rfl
  | append_singleton parts part ih =>
      have before := ih fun e member => plain e (List.mem_append_left _ member)
      have clean : Clean false (parts.foldl (reduce false) []).reverse :=
        (clean_nil false).foldl_reduce fun e member => plain e (List.mem_append_left _ member)
      rw [List.foldl_append, List.foldl_append, List.foldl_cons, List.foldl_nil, List.foldl_cons,
        List.foldl_nil, ← before]
      generalize parts.foldl (reduce false) [] = left at clean
      rw [reduce.eq_def]
      split
      next empty =>
        rw [reduce.eq_def, if_pos empty]
      next kept =>
        split
        next up =>
          cases left with
          | nil =>
              rw [up]
              rfl
          | cons top left =>
              dsimp only
              split
              · rw [up, List.reverse_cons, List.foldl_append]
                rfl
              next other =>
                have named : IsName top := by
                  obtain ⟨ups, names, same, named, _⟩ := clean
                  have member : top ∈ List.replicate ups ".." ++ names := by
                    rw [← same]
                    exact List.mem_reverse.mpr List.mem_cons_self
                  rcases List.mem_append.mp member with climbing | name
                  · exact absurd (List.eq_of_mem_replicate climbing) other
                  · exact named top name
                rw [List.reverse_cons, List.foldl_append, List.foldl_cons, List.foldl_nil,
                  named.reduce, up]
                exact (if_neg named.parent).symm
        · rw [List.reverse_cons, List.foldl_append]
          rfl

theorem elements_rooted {p : String} (rooted : isRooted p = true) :
    (parsePath p).elements.reverse = (splitPath p).foldl (reduce true) [] := by
  rw [parsePath, rooted, List.reverse_reverse]

theorem elements_absPath {cwd : String} (rooted : isRooted cwd = true) (p : String) :
    (parsePath (absPath cwd p)).elements.reverse =
      (splitPath p).foldl (reduce true)
        (if isRooted p then [] else (parsePath cwd).elements.reverse) := by
  rw [absPath]
  by_cases absolute : isRooted p = true
  · rw [if_pos absolute, if_pos absolute, parsePath_cleanPath, elements_rooted absolute]
  · have nonempty : cwd ≠ "" := by
      rintro rfl
      exact absurd rooted (by decide)
    rw [if_neg absolute, if_neg absolute]
    by_cases empty : p = ""
    · have kept : [cwd, ""].filter (· ≠ "") = [cwd] := by simp [nonempty]
      have joined : joinPath [cwd, ""] = cleanPath cwd := by
        rw [joinPath, kept]
        exact congrArg cleanPath (joinParts_singleton cwd)
      rw [empty, joined, parsePath_cleanPath]
      rfl
    · have whole : isRooted (cwd ++ "/" ++ p) = true := by
        rw [String.append_assoc]
        exact isRooted_append rooted _
      rw [joinPath_pair nonempty empty, parsePath_cleanPath, elements_rooted whole,
        splitPath_append, List.foldl_append, elements_rooted rooted]

theorem elements_absPath_cleanPath {cwd : String} (rooted : isRooted cwd = true) (p : String) :
    (parsePath (absPath cwd (cleanPath p))).elements = (parsePath (absPath cwd p)).elements := by
  rw [← List.reverse_inj, elements_absPath rooted, elements_absPath rooted, isRooted_cleanPath]
  by_cases absolute : isRooted p = true
  · have clean : isRooted (cleanPath p) = true := (isRooted_cleanPath p).trans absolute
    rw [if_pos absolute, ← elements_rooted clean, ← elements_rooted absolute, parsePath_cleanPath]
  · have reduced := foldl_reduce_reduced (plain_splitPath p) (parsePath cwd).elements.reverse
    have relative : isRooted p = false := Bool.not_eq_true _ ▸ absolute
    have clean := clean_parsePath p
    rw [if_neg absolute, ← reduced, cleanPath]
    rw [relative] at clean
    have elements : (parsePath p).elements = ((splitPath p).foldl (reduce false) []).reverse := by
      rw [parsePath, relative]
    rw [← elements, LexPath.text, show (parsePath p).rooted = false from relative,
      if_neg Bool.false_ne_true]
    split
    next none =>
      rw [none]
      rfl
    next some =>
      rw [splitPath_joinParts some clean.plain]

theorem elements_absPath_joinPath_names {cwd : String} (rooted : isRooted cwd = true) (p : String)
    {names : List String} (below : names ≠ []) (named : ∀ e ∈ names, IsName e) :
    (parsePath (absPath cwd (joinPath (p :: names)))).elements =
      (parsePath (absPath cwd p)).elements ++ names := by
  have all : names.filter (· ≠ "") = names :=
    List.filter_eq_self.mpr fun e member => decide_eq_true (named e member).nonempty
  have plain : ∀ e ∈ names, '/' ∉ e.toList := fun e member => (named e member).plain
  obtain ⟨name, rest, parts⟩ := List.exists_cons_of_ne_nil below
  rw [← List.reverse_inj, List.reverse_append]
  by_cases empty : p = ""
  · have joined : joinPath (p :: names) = cleanPath (joinParts names) := by
      rw [joinPath, empty, List.filter_cons_of_neg (by decide), all, parts]
    have relative := isRooted_joinParts below plain fun e member => (named e member).nonempty
    rw [joined, empty, elements_absPath_cleanPath rooted, elements_absPath rooted,
      elements_absPath rooted, relative, splitPath_joinParts below plain, foldl_reduce_names named]
    rfl
  · have joined : joinPath (p :: names) = cleanPath (p ++ "/" ++ joinParts names) := by
      rw [joinPath, List.filter_cons_of_pos (by simpa using empty), all]
      dsimp only
      rw [joinParts_cons below]
    rw [joined, elements_absPath_cleanPath rooted, elements_absPath rooted,
      elements_absPath rooted, splitPath_append, String.append_assoc,
      isRooted_append_of_ne empty, splitPath_joinParts below plain, List.foldl_append,
      foldl_reduce_names named]

/-- A name joined to a path is the last element of where it leads. -/
theorem elements_absPath_joinPath {cwd : String} (rooted : isRooted cwd = true) (p : String)
    {name : String} (named : IsName name) :
    (parsePath (absPath cwd (joinPath [p, name]))).elements =
      (parsePath (absPath cwd p)).elements ++ [name] :=
  elements_absPath_joinPath_names rooted p (List.cons_ne_nil name [])
    fun _ member => List.mem_singleton.mp member ▸ named

theorem joinParts_splitPath (p : String) : joinParts (splitPath p) = p := by
  have chars : ((splitPath p).map String.toList) = p.toList.splitOn '/' := by
    rw [splitPath, List.map_map]
    simp
  rw [joinParts, chars, List.intercalate_splitOn, String.ofList_toList]

structure IsEnding (ending : String) : Prop where
  plain : '/' ∉ ending.toList
  long : 2 < ending.toList.length

theorem IsEnding.isName {ending : String} (ends : IsEnding ending) {last : String}
    (plain : '/' ∉ last.toList) : IsName (last ++ ending) := by
  have long : 2 < (last ++ ending).toList.length := by
    rw [String.toList_append, List.length_append]
    exact Nat.lt_of_lt_of_le ends.long (Nat.le_add_left _ _)
  have other : ∀ e : String, e.toList.length ≤ 2 → last ++ ending ≠ e := by
    rintro e short rfl
    omega
  refine ⟨other "" (by decide), other "." (by decide), other ".." (by decide), ?_⟩
  rw [String.toList_append, List.mem_append, not_or]
  exact ⟨plain, ends.plain⟩

theorem splitPath_ending (p : String) {ending : String} (ends : IsEnding ending) :
    ∃ parts last, '/' ∉ last.toList ∧ splitPath p = parts ++ [last] ∧
      splitPath (p ++ ending) = parts ++ [last ++ ending] := by
  obtain ⟨parts, last, split⟩ : ∃ parts last, splitPath p = parts ++ [last] := by
    have some : splitPath p ≠ [] := by
      rw [splitPath]
      exact fun none => List.splitOn_ne_nil _ _ (List.map_eq_nil_iff.mp none)
    exact ⟨_, _, (List.dropLast_append_getLast some).symm⟩
  have plain := plain_splitPath p
  rw [split] at plain
  have lastPlain := plain last (List.mem_append_right _ List.mem_cons_self)
  have text : p ++ ending = joinParts (parts ++ [last ++ ending]) := by
    rw [← joinParts_splitPath p, split]
    by_cases none : parts = []
    · rw [none, List.nil_append, List.nil_append, joinParts_singleton, joinParts_singleton]
    · rw [joinParts_concat none, joinParts_concat none, String.append_assoc]
  refine ⟨parts, last, lastPlain, split, ?_⟩
  rw [text, splitPath_joinParts (by simp)]
  intro e member
  rcases List.mem_append.mp member with before | here
  · exact plain e (List.mem_append_left _ before)
  · rw [List.mem_singleton.mp here]
    exact (ends.isName lastPlain).plain

theorem isRooted_ending (p : String) {ending : String} (ends : IsEnding ending) :
    isRooted (p ++ ending) = isRooted p := by
  by_cases empty : p = ""
  · have named : IsName ("" ++ ending) := ends.isName (by decide)
    rw [empty, named.isRooted]
    rfl
  · exact isRooted_append_of_ne empty ending

theorem length_reduce (rooted : Bool) (stack : List String) (part : String) :
    stack.length ≤ (reduce rooted stack part).length + 1 := by
  rw [reduce.eq_def]
  split
  · omega
  · split
    · split
      · split <;> simp
      · split
        · simp
        · simp
    · exact Nat.le_succ_of_le (Nat.le_succ _)

/-- A path with an ending leads to a name with this ending, not much above where the path
leads. -/
theorem elements_absPath_ending {cwd : String} (rooted : isRooted cwd = true) (p : String)
    {ending : String} (ends : IsEnding ending) :
    ∃ last stack, (parsePath (absPath cwd (p ++ ending))).elements.reverse =
        (last ++ ending) :: stack ∧
      stack.length ≤ (parsePath (absPath cwd p)).elements.length + 1 := by
  obtain ⟨parts, last, plain, split, splitEnding⟩ := splitPath_ending p ends
  rw [← List.length_reverse, elements_absPath rooted,
    elements_absPath rooted, isRooted_ending p ends, split, splitEnding, List.foldl_append,
    List.foldl_append]
  exact ⟨last, _, (ends.isName plain).reduce true _, length_reduce true _ last⟩

/-- Texts with endings of which none ends with the other are different. -/
theorem append_ne_append {a b e f : String} (first : ¬ e.toList <:+ f.toList)
    (second : ¬ f.toList <:+ e.toList) : a ++ e ≠ b ++ f := by
  intro same
  have chars := congrArg String.toList same
  rw [String.toList_append, String.toList_append] at chars
  have whole : f.toList <:+ a.toList ++ e.toList := chars ▸ List.suffix_append _ _
  rcases List.suffix_or_suffix_of_suffix (List.suffix_append _ _) whole with short | long
  · exact first short
  · exact second long

end DseFmi.Library
