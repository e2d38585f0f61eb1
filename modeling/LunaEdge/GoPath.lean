import LunaEdge.GoText

/-!
# Slash-separated paths

`path.Clean` and `path.Join` of the Go library. Cleaning removes empty
names and dots and resolves `..`; a path of plain names stays as it is,
so joining plain names only puts slashes between them (`pathJoin_plain`).

A clean absolute path is a list of plain names (`exists_names_of_clean`);
`filepath.Join` and `filepath.Rel` append to such a list and take off the
names of another one (`joinPath_below`, `pathRel_absPath`).
-/

namespace LunaEdge

open List

namespace Go

/-- The names so far, last first. -/
def cleanName (rooted : Bool) (names : List String) (name : String) : List String :=
  if name = "" ∨ name = "." then names
  else if name = ".." then
    match names with
    | [] => if rooted then [] else [".."]
    | last :: rest => if last = ".." then ".." :: last :: rest else rest
  else name :: names

/-- `path.Clean`. -/
def pathClean (p : String) : String :=
  let rooted := hasPrefix p "/"
  let names := ((split p '/').foldl (cleanName rooted) []).reverse
  let out := if rooted then "/" ++ join names '/' else join names '/'
  if out = "" then "." else out

/-- `path.Join` of two elements. -/
def pathJoin (a b : String) : String :=
  if a = "" then (if b = "" then "" else pathClean b) else pathClean (a ++ "/" ++ b)

structure PlainName (name : String) : Prop where
  ne_empty : name ≠ ""
  ne_dot : name ≠ "."
  ne_up : name ≠ ".."
  noSlash : '/' ∉ name.toList

abbrev PlainNames (names : List String) : Prop := ∀ name ∈ names, PlainName name

theorem plainName_toString (n : Nat) : PlainName (toString n) := by
  have hdigit : ∀ c ∈ (toString n).toList, c.isDigit = true := fun c hc =>
    isDigit_of_mem_toString hc
  refine ⟨?_, fun h => ?_, fun h => ?_, fun h => ?_⟩
  · intro h
    have hrepr : (toString n).toList = Nat.toDigits 10 n := Nat.toList_repr
    rw [h] at hrepr
    exact Nat.toDigits_ne_nil hrepr.symm
  · rw [h] at hdigit
    exact absurd (hdigit '.' (by simp)) (by decide)
  · rw [h] at hdigit
    exact absurd (hdigit '.' (by simp)) (by decide)
  · exact absurd (hdigit '/' h) (by decide)

variable {names : List String}

theorem foldl_cleanName (h : PlainNames names) (rooted : Bool) (done : List String) :
    names.foldl (cleanName rooted) done = names.reverse ++ done := by
  induction names generalizing done with
  | nil => rfl
  | cons name names ih =>
    have hname := h name mem_cons_self
    have hpush : cleanName rooted done name = name :: done := by
      unfold cleanName
      rw [if_neg (not_or.mpr ⟨hname.ne_empty, hname.ne_dot⟩), if_neg hname.ne_up]
    rw [foldl_cons, hpush, ih fun n hn => h n (mem_cons_of_mem _ hn), reverse_cons, append_assoc]
    rfl

theorem join_plain_cases (h : PlainNames names) (hne : names ≠ []) :
    ∃ c cs, (join names '/').toList = c :: cs ∧ c ≠ '/' := by
  obtain ⟨name, rest, rfl⟩ := exists_cons_of_ne_nil hne
  have hname := h name mem_cons_self
  obtain ⟨c, cs, hcs⟩ := exists_cons_of_ne_nil (String.toList_eq_nil_iff.not.mpr hname.ne_empty)
  have hc : c ≠ '/' := by
    rintro rfl
    exact hname.noSlash (hcs ▸ mem_cons_self)
  by_cases hrest : rest = []
  · subst hrest
    refine ⟨c, cs, ?_, hc⟩
    simpa [join] using hcs
  · rw [toList_join_cons name hrest, hcs]
    exact ⟨c, _, rfl, hc⟩

theorem pathClean_plain (h : PlainNames names) (hne : names ≠ []) :
    pathClean (join names '/') = join names '/' := by
  obtain ⟨c, cs, hcs, hc⟩ := join_plain_cases h hne
  have hrooted : hasPrefix (join names '/') "/" = false := by
    rw [hasPrefix, hcs]
    simp [List.isPrefixOf, hc.symm]
  have hempty : join names '/' ≠ "" := by
    intro heq
    rw [heq] at hcs
    cases hcs
  rw [pathClean, hrooted, split_join (fun name hname => (h name hname).noSlash) hne,
    foldl_cleanName h]
  simp [hempty]

theorem join_concat (hne : names ≠ []) (name : String) :
    join (names ++ [name]) '/' = join names '/' ++ "/" ++ name := by
  induction names with
  | nil => exact absurd rfl hne
  | cons first names ih =>
    rw [← String.toList_inj]
    by_cases hnames : names = []
    · subst hnames
      simp [join, List.intercalate]
    · rw [cons_append, toList_join_cons _ (by simp), ih hnames]
      simp [toList_join_cons _ hnames]

theorem pathJoin_plain {name : String} (h : PlainNames names) (hne : names ≠ [])
    (hname : PlainName name) : pathJoin (join names '/') name = join (names ++ [name]) '/' := by
  have hall : PlainNames (names ++ [name]) := by
    intro n hn
    rcases mem_append.mp hn with hn | hn
    · exact h n hn
    · rwa [mem_singleton.mp hn]
  obtain ⟨c, cs, hcs, -⟩ := join_plain_cases h hne
  have hempty : join names '/' ≠ "" := by
    intro heq
    rw [heq] at hcs
    cases hcs
  rw [pathJoin, if_neg hempty, ← join_concat hne, pathClean_plain hall (by simp)]

/-! ## Absolute paths -/

def absPath (names : List String) : String := "/" ++ join names '/'

/-- `filepath.Join` -/
def joinPath (elems : List String) : String :=
  match elems.dropWhile (· = "") with
  | [] => ""
  | elem :: elems => pathClean (join (elem :: elems) '/')

/-- The names of a clean path as `filepath.Rel` goes through them. The first
one of an absolute path is empty. -/
def pathWords (p : String) : List String :=
  if p = "" then [] else if p = "/" then [""] else split p '/'

/-- The part of `filepath.Rel` behind its checks: the names that the paths
share are left out. -/
def relWords : List String → List String → Option (List String)
  | [], targ => some targ
  | _ :: base, [] => some (".." :: base.map fun _ => "..")
  | b :: base, t :: targ =>
    if b = t then relWords base targ
    else if b = ".." then none
    else some (".." :: base.map (fun _ => "..") ++ t :: targ)

/-- `filepath.Rel` -/
def pathRel (basepath targpath : String) : Option String :=
  let base := pathClean basepath
  let targ := pathClean targpath
  if targ = base then some "."
  else
    let base := if base = "." then "" else base
    if hasPrefix base "/" ≠ hasPrefix targ "/" then none
    else (relWords (pathWords base) (pathWords targ)).map fun words => join words '/'

/-- The second path is the first one or lies below it. -/
def Contains (dir p : String) : Prop := pathWords dir <+: pathWords p

variable {root : List String}

theorem split_slash (a b : String) : split (a ++ "/" ++ b) '/' = split a '/' ++ split b '/' := by
  have hlist : (a ++ "/" ++ b).toList = a.toList ++ '/' :: b.toList := by simp
  rw [split, hlist, splitOn_append_cons_self, map_append, split, split]

theorem foldl_split_join (h : PlainNames names) (done : List String) :
    (split (join names '/') '/').foldl (cleanName true) done = names.reverse ++ done := by
  by_cases hne : names = []
  · subst hne
    rfl
  · rw [split_join (fun name hname => (h name hname).noSlash) hne, foldl_cleanName h]

theorem hasPrefix_absPath (names : List String) (rest : String) :
    hasPrefix (absPath names ++ rest) "/" = true := by
  simp [hasPrefix, absPath, List.isPrefixOf]

theorem pathClean_of_rooted {p : String} (h : hasPrefix p "/" = true) :
    pathClean p = absPath ((split p '/').foldl (cleanName true) []).reverse := by
  have hne : ∀ names, absPath names ≠ "" := fun names heq => by
    have hlist := congrArg String.toList heq
    simp [absPath] at hlist
  rw [pathClean, h]
  exact if_neg (hne _)

theorem foldl_split_absPath (h : PlainNames names) :
    (split (absPath names) '/').foldl (cleanName true) [] = names.reverse := by
  have habs : absPath names = "" ++ "/" ++ join names '/' := by simp [absPath]
  rw [habs, split_slash, foldl_append, foldl_split_join h]
  exact append_nil _

theorem pathClean_below (hroot : PlainNames root) (h : PlainNames names) :
    pathClean (absPath root ++ "/" ++ join names '/') = absPath (root ++ names) := by
  rw [pathClean_of_rooted (String.append_assoc ▸ hasPrefix_absPath root _), split_slash,
    foldl_append, foldl_split_absPath hroot, foldl_split_join h, reverse_append,
    reverse_reverse, reverse_reverse]

theorem pathClean_absPath (h : PlainNames names) :
    pathClean (absPath names) = absPath names := by
  have hrooted := hasPrefix_absPath names ""
  rw [String.append_empty] at hrooted
  rw [pathClean_of_rooted hrooted, foldl_split_absPath h, reverse_reverse]

theorem plainName_of_cleaned {done : List String} (h : ∀ name ∈ names, '/' ∉ name.toList)
    (hdone : PlainNames done) :
    ∀ name ∈ names.foldl (cleanName true) done, PlainName name := by
  induction names generalizing done with
  | nil => exact hdone
  | cons name names ih =>
    refine ih (fun n hn => h n (mem_cons_of_mem _ hn)) ?_
    unfold cleanName
    split
    · exact hdone
    · rename_i hne
      split
      · split
        · exact hdone
        · rename_i last rest
          rw [if_neg (hdone last mem_cons_self).ne_up]
          exact fun n hn => hdone n (mem_cons_of_mem _ hn)
      · rename_i hup
        refine forall_mem_cons.mpr ⟨?_, hdone⟩
        exact ⟨fun h => hne (Or.inl h), fun h => hne (Or.inr h), hup, h name mem_cons_self⟩

theorem exists_names_of_clean {p : String} (hclean : pathClean p = p)
    (habs : hasPrefix p "/" = true) :
    ∃ names, PlainNames names ∧ absPath names = p := by
  refine ⟨_, fun name hname => ?_, (pathClean_of_rooted habs).symm.trans hclean⟩
  exact plainName_of_cleaned (fun _ hmem => not_mem_of_mem_split hmem)
    (forall_mem_nil PlainName) name (mem_reverse.mp hname)

theorem pathWords_absPath (h : PlainNames names) :
    pathWords (absPath names) = "" :: names := by
  by_cases hne : names = []
  · subst hne
    decide
  · obtain ⟨c, cs, hcs, -⟩ := join_plain_cases h hne
    have habs : absPath names = "" ++ "/" ++ join names '/' := by simp [absPath]
    have hlist : (absPath names).toList = '/' :: c :: cs := by simp [absPath, hcs]
    have hempty : absPath names ≠ "" := fun heq => by simp [heq] at hlist
    have hslash : absPath names ≠ "/" := fun heq => by simp [heq] at hlist
    rw [pathWords, if_neg hempty, if_neg hslash, habs, split_slash,
      split_join (fun name hname => (h name hname).noSlash) hne]
    rfl

theorem contains_absPath_iff (hroot : PlainNames root) (h : PlainNames names) :
    Contains (absPath root) (absPath names) ↔ root <+: names := by
  rw [Contains, pathWords_absPath hroot, pathWords_absPath h, prefix_cons_inj]

theorem contains_refl (p : String) : Contains p p := prefix_rfl

theorem relWords_append (base rest : List String) : relWords base (base ++ rest) = some rest := by
  induction base with
  | nil => rfl
  | cons b base ih => rw [cons_append, relWords, if_pos rfl, ih]

theorem pathRel_absPath (hroot : PlainNames root) (h : PlainNames names) (hne : names ≠ []) :
    pathRel (absPath root) (absPath (root ++ names)) = some (join names '/') := by
  have hall : PlainNames (root ++ names) := fun name hname =>
    (mem_append.mp hname).elim (hroot name) (h name)
  have hdiffer : absPath (root ++ names) ≠ absPath root := fun heq => by
    have hwords := congrArg pathWords heq
    rw [pathWords_absPath hall, pathWords_absPath hroot] at hwords
    simp [hne] at hwords
  have hdot : absPath root ≠ "." := fun heq => by
    have hlist := congrArg String.toList heq
    simp [absPath] at hlist
  have hslash : ∀ names, hasPrefix (absPath names) "/" = true := fun names => by
    simp [hasPrefix, absPath, List.isPrefixOf]
  rw [pathRel, pathClean_absPath hroot, pathClean_absPath hall]
  simp only [hdiffer, hdot, hslash, if_false, ne_eq, not_true_eq_false]
  rw [pathWords_absPath hroot, pathWords_absPath hall, ← cons_append, relWords_append]
  rfl

theorem joinPath_below {elems : List String} (hroot : PlainNames root) (h : PlainNames names)
    (helems : join (absPath root :: elems) '/' = absPath root ++ "/" ++ join names '/') :
    joinPath (absPath root :: elems) = absPath (root ++ names) := by
  have hne : absPath root ≠ "" := fun heq => by
    have hlist := congrArg String.toList heq
    simp [absPath] at hlist
  rw [joinPath, dropWhile_cons_of_neg (by simpa using hne)]
  dsimp only
  rw [helems, pathClean_below hroot h]

theorem exists_toList_join (first : String) (names : List String) :
    ∃ cs, (join (first :: names) '/').toList = first.toList ++ cs := by
  by_cases hne : names = []
  · subst hne
    exact ⟨[], by simp [join]⟩
  · exact ⟨_, toList_join_cons first hne⟩

end Go

end LunaEdge
