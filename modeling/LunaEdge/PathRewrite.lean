import LunaEdge.PlaintextIsolation
import LunaEdge.RouteSelection
import LunaEdge.UrlPath

/-!
# The path that is forwarded

A route is chosen by a prefix of the request path as text, and the same
prefix is taken off before the request is forwarded. The two agree on
segments exactly if the prefix ends at the end of a segment
(`segments_rewriteUpstreamPath_iff`): a route for `/api` takes `/apix` too
and forwards it as `/x`.

The escaped form of the path loses the prefix as well, again as text. It
still decodes to the forwarded path exactly if the prefix stands in it
without escapes and is not followed by an escaped slash
(`rewriteUpstreamBytes_consistent_iff`).
-/

namespace LunaEdge

open List

namespace Ingress

open UrlPath

/-! ## Taking off a prefix -/

section Trim

variable {α : Type} [DecidableEq α] {sep : α} {pre path rest : List α}

/-- `trimMatchedPrefix`, over any characters. -/
def trimMatched (sep : α) (pre path : List α) : List α :=
  if path = [] then [sep]
  else if pre = [sep] ∨ pre = [] then path
  else
    let trimmed := if pre.isPrefixOf path then path.drop pre.length else path
    if trimmed = [] then [sep]
    else if trimmed.head? ≠ some sep then sep :: trimmed
    else trimmed

def rooted (sep : α) (l : List α) : List α := if l.head? = some sep then l else sep :: l

theorem rooted_eq (l : List α) :
    (if l = [] then [sep] else if l.head? ≠ some sep then sep :: l else l) = rooted sep l := by
  cases l <;> simp [rooted]

theorem trimMatched_append (hpre : pre ≠ [sep]) (hne : pre ≠ []) :
    trimMatched sep pre (pre ++ rest) = rooted sep rest := by
  rw [trimMatched, if_neg (by simp [hne]), if_neg (by simp [hpre, hne])]
  simp only [List.isPrefixOf_iff_prefix.mpr (prefix_append pre rest), if_true, drop_left, rooted_eq]

theorem trimMatched_unmatched (hpre : pre ≠ [sep]) (h : ¬ pre <+: path) (hpath : path ≠ []) :
    trimMatched sep pre path = rooted sep path := by
  have hne : pre ≠ [] := fun hnil => h (hnil ▸ nil_prefix)
  rw [trimMatched, if_neg hpath, if_neg (by simp [hpre, hne])]
  simp only [List.isPrefixOf_iff_prefix, if_neg h, rooted_eq]

theorem trimMatched_root (hpath : path ≠ []) : trimMatched sep [sep] path = path := by
  rw [trimMatched, if_neg hpath, if_pos (Or.inl rfl)]

theorem rooted_ne_nil (l : List α) : rooted sep l ≠ [] := by
  rw [rooted]
  split
  · rintro rfl
    simp at *
  · simp

theorem segments_rooted (l : List α) : segments sep (rooted sep l) = segments sep l := by
  rw [rooted]
  split
  · rfl
  · exact segments_sep_cons

theorem segments_trimMatched (hpre : pre.head? = some sep) :
    segments sep (trimMatched sep pre (pre ++ rest)) = segments sep rest := by
  by_cases hroot : pre = [sep]
  · subst hroot
    rw [trimMatched_root (by simp), singleton_append, segments_sep_cons]
  · have hne : pre ≠ [] := by
      rintro rfl
      cases hpre
    rw [trimMatched_append hroot hne, segments_rooted]

end Trim

theorem singleton_prefix_iff {α : Type} {a : α} {l : List α} : [a] <+: l ↔ l.head? = some a := by
  cases l <;> simp [eq_comm]

theorem hasPrefix_slash_iff {s : String} :
    Go.hasPrefix s "/" = true ↔ s.toList.head? = some '/' := by
  rw [Go.hasPrefix, List.isPrefixOf_iff_prefix]
  exact singleton_prefix_iff

theorem toList_trimMatchedPrefix (pre path : String) :
    (trimMatchedPrefix pre path).toList = trimMatched '/' pre.toList path.toList := by
  have hempty : ∀ s : String, s = "" ↔ s.toList = [] := fun s => String.toList_eq_nil_iff.symm
  have hslash : ∀ s : String, s = "/" ↔ s.toList = ['/'] := fun s => by
    rw [← String.toList_inj]
    rfl
  have htrimmed : (Go.trimPrefix path pre).toList
      = if pre.toList.isPrefixOf path.toList then path.toList.drop pre.toList.length
        else path.toList := by
    rw [Go.trimPrefix, Go.hasPrefix]
    split <;> simp
  unfold trimMatchedPrefix trimMatched
  simp only [apply_ite String.toList, hempty, hslash, htrimmed, Bool.or_eq_true, decide_eq_true_eq,
    Bool.not_eq_true', ← Bool.not_eq_true, hasPrefix_slash_iff, String.toList_append]
  rfl

/-! ## The prefix of a route -/

theorem head?_normalizeProxyPathPrefix (path : String) :
    (normalizeProxyPathPrefix path).toList.head? = some '/' := by
  unfold normalizeProxyPathPrefix
  dsimp only
  split
  · rfl
  · rename_i h
    rw [Bool.or_eq_true, not_or, Bool.not_eq_true', Bool.not_eq_false] at h
    exact hasPrefix_slash_iff.mp h.2

theorem normalizeProxyPathPrefix_eq_trimSpace {path : String} (h : path.toList.head? = some '/') :
    normalizeProxyPathPrefix path = Go.trimSpace path
      ∧ ∃ spaces, path.toList = (Go.trimSpace path).toList ++ spaces
        ∧ ∀ c ∈ spaces, Go.isSpace c = true := by
  obtain ⟨cs, hcs⟩ : ∃ cs, path.toList = '/' :: cs := by
    cases hpath : path.toList with
    | nil => simp [hpath] at h
    | cons c cs =>
      rw [hpath, List.head?_cons, Option.some.injEq] at h
      exact ⟨cs, by rw [h]⟩
  have hslash : Go.isSpace '/' = false := by decide
  have htrim : (Go.trimSpace path).toList = path.toList.rdropWhile Go.isSpace := by
    rw [Go.trimSpace_toList, hcs, dropWhile_cons_of_neg (by simp [hslash])]
  have hsplit : path.toList = path.toList.rdropWhile Go.isSpace ++ path.toList.rtakeWhile Go.isSpace :=
    rdropWhile_append_rtakeWhile.symm
  refine ⟨?_, path.toList.rtakeWhile Go.isSpace, by rw [htrim]; exact hsplit,
    fun c hc => mem_rtakeWhile_imp hc⟩
  -- what is trimmed keeps the slash it begins with
  have hne : path.toList.rdropWhile Go.isSpace ≠ [] := by
    rw [Ne, rdropWhile_eq_nil_iff, hcs]
    exact fun hall => by simpa [hslash] using hall '/' mem_cons_self
  have hhead : (Go.trimSpace path).toList.head? = some '/' := by
    rw [← h, htrim]
    conv_rhs => rw [hsplit]
    exact (List.head?_append_of_ne_nil _ hne).symm
  have hempty : Go.trimSpace path ≠ "" := fun hnil => by
    rw [hnil] at hhead
    cases hhead
  rw [normalizeProxyPathPrefix, hasPrefix_slash_iff.mpr hhead]
  simp [hempty]

theorem normalizeProxyPathPrefix_idem (path : String) :
    normalizeProxyPathPrefix (normalizeProxyPathPrefix path) = normalizeProxyPathPrefix path := by
  have htrim : Go.trimSpace (normalizeProxyPathPrefix path) = normalizeProxyPathPrefix path := by
    unfold normalizeProxyPathPrefix
    dsimp only
    split
    · decide
    · exact Go.trimSpace_idem path
  rw [(normalizeProxyPathPrefix_eq_trimSpace (head?_normalizeProxyPathPrefix path)).1, htrim]

/-! ## Segments -/

def pathSegments (path : String) : List String := (Go.split path '/').filter (· ≠ "")

theorem pathSegments_eq (path : String) :
    pathSegments path = (segments '/' path.toList).map String.ofList := by
  rw [pathSegments, Go.split, segments, filter_map]
  congr 1
  refine filter_congr fun l _ => ?_
  simp

theorem selectHTTPRoute_matches {routes : List HTTPRouteProjection} {p : String}
    {w : HTTPRouteProjection} (h : selectHTTPRoute routes p = some w) :
    httpRouteMatches w.path p = true := by
  suffices hall : ∀ selected : Option HTTPRouteProjection,
      (∀ s ∈ selected, httpRouteMatches s.path p = true) →
      ∀ s ∈ routes.foldl (selectNextRoute p) selected, httpRouteMatches s.path p = true from
    hall none (fun _ hs => nomatch hs) w h
  clear h
  induction routes with
  | nil => exact fun _ h => h
  | cons route routes ih =>
    intro selected hselected
    refine ih _ fun s hs => ?_
    unfold selectNextRoute at hs
    split at hs
    · exact hselected s hs
    · rename_i hmatch
      rw [Bool.not_eq_true, Bool.not_eq_false'] at hmatch
      split at hs
      · obtain rfl := Option.mem_some_iff.mp hs
        exact hmatch
      · exact hselected s hs

/-- The path of a route ends where a segment of the request path does. -/
def EndsSegment (path requestPath : String) : Prop :=
  path = "" ∨ path = "/" ∨ Go.trimSpace path = path
    ∧ (path.toList.getLast? = some '/' ∨ requestPath = path
      ∨ Go.hasPrefix requestPath (path ++ "/") = true)

instance (path requestPath : String) : Decidable (EndsSegment path requestPath) :=
  inferInstanceAs (Decidable (_ ∨ _ ∨ _ ∧ _))

theorem segments_append_spaces_iff {pre spaces rest : List Char} (hpre : pre ≠ [])
    (hspaces : ∀ c ∈ spaces, Go.isSpace c = true) :
    segments '/' (pre ++ spaces ++ rest)
        = segments '/' (pre ++ spaces) ++ segments '/' (spaces ++ rest)
      ↔ spaces = [] ∧ (pre.getLast? = some '/' ∨ rest = [] ∨ rest.head? = some '/') := by
  by_cases hnil : spaces = []
  · subst hnil
    rw [append_nil, nil_append, segments_append_iff]
    simp [hpre]
  · refine iff_of_false (fun h => hnil ?_) fun h => hnil h.1
    -- otherwise the spaces are counted twice on the right
    have hkept : spaces.filter (· ≠ '/') = spaces := filter_eq_self.mpr fun c hc => by
      have hc := hspaces c hc
      refine decide_eq_true fun heq => ?_
      rw [heq] at hc
      exact absurd hc (by decide)
    have hcount := congrArg (fun l => (List.flatten l).length) h
    simp only [flatten_append, flatten_segments, filter_append, length_append, hkept] at hcount
    exact eq_nil_of_length_eq_zero (by omega)

/-- The segments of the request path are those of the route and of the path
that is forwarded if and only if the route ends at the end of a segment. -/
theorem segments_rewriteUpstreamPath_iff (routes : List HTTPRouteProjection)
    (requestPath rawPath : String) {route : HTTPRouteProjection}
    (hpath : Go.hasPrefix requestPath "/" = true)
    (hroute : selectHTTPRoute routes requestPath = some route) :
    pathSegments requestPath
        = pathSegments route.path
          ++ pathSegments (rewriteUpstreamPath (normalizeProxyPathPrefix route.path) requestPath
            rawPath).1
      ↔ EndsSegment route.path requestPath := by
  have hslash := hasPrefix_slash_iff.mp hpath
  have hempty : requestPath ≠ "" := by
    rintro rfl
    cases hslash
  have hmatch := selectHTTPRoute_matches hroute
  generalize route.path = r at hmatch ⊢
  have hupstream : (rewriteUpstreamPath (normalizeProxyPathPrefix r) requestPath rawPath).1.toList
      = trimMatched '/' (normalizeProxyPathPrefix r).toList requestPath.toList := by
    rw [rewriteUpstreamPath, normalizeProxyPathPrefix_idem, if_neg hempty]
    exact toList_trimMatchedPrefix _ _
  have hinj : Function.Injective String.ofList := fun l l' => String.ofList_inj.mp
  rw [pathSegments_eq, pathSegments_eq, pathSegments_eq, hupstream, ← map_append,
    (map_injective_iff.mpr hinj).eq_iff]
  have hne : requestPath.toList ≠ [] := String.toList_eq_nil_iff.not.mpr hempty
  by_cases hroot : r = "" ∨ r = "/"
  · have hnorm : (normalizeProxyPathPrefix r).toList = ['/'] ∧ segments '/' r.toList = [] := by
      rcases hroot with rfl | rfl <;> decide
    rw [hnorm.1, hnorm.2, trimMatched_root hne]
    exact iff_of_true rfl (hroot.imp_right Or.inl)
  · have hprefix := (httpRouteMatches_cases hmatch).resolve_left fun h => hroot (Or.inl h)
    have hprefix := hprefix.resolve_left fun h => hroot (Or.inr h)
    rw [if_neg hempty] at hprefix
    obtain ⟨rest, hrest⟩ := List.isPrefixOf_iff_prefix.mp hprefix
    have hhead : r.toList.head? = some '/' := by
      rw [← hslash, ← hrest]
      refine (List.head?_append_of_ne_nil _ fun hnil => hroot (Or.inl ?_)).symm
      exact String.toList_eq_nil_iff.mp hnil
    obtain ⟨hnorm, spaces, hsplit, hspaces⟩ := normalizeProxyPathPrefix_eq_trimSpace hhead
    have hpre := head?_normalizeProxyPathPrefix r
    rw [hnorm] at hpre ⊢
    have hpreNe : (Go.trimSpace r).toList ≠ [] := fun hnil => by
      rw [hnil] at hpre
      cases hpre
    have htrim : spaces = [] ↔ Go.trimSpace r = r := by
      rw [← String.toList_inj]
      conv_rhs => rw [hsplit]
      exact self_eq_append_right.symm
    have hends : rest = [] ↔ requestPath = r := by
      rw [← String.toList_inj, ← hrest, append_right_eq_self]
    have hnext : rest.head? = some '/' ↔ Go.hasPrefix requestPath (r ++ "/") = true := by
      rw [Go.hasPrefix, List.isPrefixOf_iff_prefix, ← hrest, String.toList_append,
        prefix_append_right_inj]
      exact singleton_prefix_iff.symm
    rw [← hrest, hsplit, append_assoc _ spaces, segments_trimMatched hpre, ← append_assoc,
      segments_append_spaces_iff hpreNe hspaces, htrim, hends, hnext]
    constructor
    · rintro ⟨hr, h⟩
      rw [hr] at h
      exact Or.inr (Or.inr ⟨hr, h⟩)
    · rintro (h | h | ⟨hr, h⟩)
      · exact absurd (Or.inl h) hroot
      · exact absurd (Or.inr h) hroot
      · rw [hr]
        exact ⟨rfl, h⟩

def apiRoute : HTTPRouteProjection where
  id := "r"
  path := "/api"
  priority := 1

theorem segments_of_api_users :
    pathSegments "/api/users"
      = pathSegments "/api"
        ++ pathSegments (rewriteUpstreamPath (normalizeProxyPathPrefix "/api") "/api/users" "").1 := by
  have hroute : selectHTTPRoute [apiRoute] "/api/users" = some apiRoute := by decide
  exact (segments_rewriteUpstreamPath_iff [apiRoute] "/api/users" "" (by decide) hroute).mpr
    (by decide)

/-- The route for `/api` takes `/apix`, which is forwarded as `/x`. -/
theorem api_captures_apix :
    selectHTTPRoute [apiRoute] "/apix" = some apiRoute
      ∧ (rewriteUpstreamPath (normalizeProxyPathPrefix apiRoute.path) "/apix" "").1 = "/x"
      ∧ pathSegments "/apix" ≠ pathSegments apiRoute.path ++ pathSegments "/x" := by
  decide

/-! ## The escaped path

The path of a route is text; the path of a request is what its escapes
stand for, which can be any bytes. -/

/-- `httpRouteMatches` on the bytes of a request path. -/
def httpRouteMatchesBytes (path : String) (requestPath : List UInt8) : Bool :=
  if path = "" || path = "/" then true
  else
    let requestPath := if requestPath = [] then [slash] else requestPath
    (utf8 path.toList).isPrefixOf requestPath

/-- `rewriteUpstreamPath` on the bytes of the two paths. -/
def rewriteUpstreamBytes (pre : String) (requestPath rawPath : List UInt8) :
    List UInt8 × List UInt8 :=
  let pre := utf8 (normalizeProxyPathPrefix pre).toList
  let requestPath := if requestPath = [] then [slash] else requestPath
  (trimMatched slash pre requestPath,
    if rawPath = [] then rawPath else trimMatched slash pre rawPath)

/-- The escaped path is absent, or decodes to the path. -/
def Consistent (path rawPath : List UInt8) : Prop := rawPath = [] ∨ unescape rawPath = some path

instance (path rawPath : List UInt8) : Decidable (Consistent path rawPath) :=
  inferInstanceAs (Decidable (_ ∨ _))

/-- The prefix stands in front of the escaped path without escapes, and the
slash behind it is not escaped. -/
structure RawPrefix (pre requestPath rawPath : List UInt8) : Prop where
  noEscape : percent ∉ pre
  stands : pre <+: rawPath
  slashed : pre ++ [slash] <+: requestPath → pre ++ [slash] <+: rawPath

theorem utf8_slash : utf8 ['/'] = [slash] := by decide

theorem slash_utf8_iff {s : List Char} : (utf8 s).head? = some slash ↔ s.head? = some '/' := by
  rw [← singleton_prefix_iff, ← utf8_slash, utf8_prefix_iff, singleton_prefix_iff]

theorem utf8_rooted (l : List Char) : utf8 (rooted '/' l) = rooted slash (utf8 l) := by
  rw [rooted, rooted, apply_ite utf8]
  exact if_congr slash_utf8_iff.symm rfl (by rw [← singleton_append, utf8_append, utf8_slash]; rfl)

theorem utf8_trimMatched (pre path : List Char) :
    utf8 (trimMatched '/' pre path) = trimMatched slash (utf8 pre) (utf8 path) := by
  by_cases hpath : path = []
  · subst hpath
    exact utf8_slash
  have hpath' : utf8 path ≠ [] := utf8_eq_nil_iff.not.mpr hpath
  by_cases hpre : pre = ['/'] ∨ pre = []
  · have hpre' : utf8 pre = [slash] ∨ utf8 pre = [] := by
      rw [← utf8_slash, utf8_inj, utf8_eq_nil_iff]
      exact hpre
    rw [trimMatched, if_neg hpath, if_pos hpre, trimMatched, if_neg hpath', if_pos hpre']
  obtain ⟨hroot, hne⟩ := not_or.mp hpre
  have hroot' : utf8 pre ≠ [slash] := by rwa [← utf8_slash, Ne, utf8_inj]
  by_cases hprefix : pre <+: path
  · obtain ⟨rest, rfl⟩ := hprefix
    rw [trimMatched_append hroot hne, utf8_append,
      trimMatched_append hroot' (utf8_eq_nil_iff.not.mpr hne), utf8_rooted]
  · rw [trimMatched_unmatched hroot hprefix hpath,
      trimMatched_unmatched hroot' (utf8_prefix_iff.not.mpr hprefix) hpath', utf8_rooted]

/-- On text the two are the same function. -/
theorem rewriteUpstreamBytes_utf8 (pre requestPath rawPath : String) :
    rewriteUpstreamBytes pre (utf8 requestPath.toList) (utf8 rawPath.toList)
      = (utf8 (rewriteUpstreamPath pre requestPath rawPath).1.toList,
        utf8 (rewriteUpstreamPath pre requestPath rawPath).2.toList) := by
  have hempty : ∀ s : String, utf8 s.toList = [] ↔ s = "" := fun s =>
    utf8_eq_nil_iff.trans String.toList_eq_nil_iff
  simp only [rewriteUpstreamBytes, rewriteUpstreamPath, toList_trimMatchedPrefix, utf8_trimMatched,
    apply_ite String.toList, apply_ite utf8, hempty]
  rfl

variable {pre p q l t w : List UInt8}

theorem unescape_rooted : unescape (rooted slash l)
    = if l.head? = some slash then unescape l else (unescape l).map (slash :: ·) := by
  unfold rooted
  split
  · rfl
  · exact unescape_slash_cons

theorem length_rooted_le (l : List UInt8) : (rooted slash l).length ≤ l.length + 1 := by
  unfold rooted
  split <;> simp

theorem exists_of_unescape_rooted (h : unescape (rooted slash l) = some w) :
    ∃ d, unescape l = some d ∧ d.length ≤ w.length := by
  rw [unescape_rooted] at h
  split at h
  · exact ⟨w, h, Nat.le_refl _⟩
  · obtain ⟨d, hd, rfl⟩ := Option.map_eq_some_iff.mp h
    exact ⟨d, hd, by simp⟩

theorem two_le_length (hpre : pre.head? = some slash) (hroot : pre ≠ [slash]) : 2 ≤ pre.length := by
  rcases pre with _ | ⟨b, _ | ⟨c, pre⟩⟩
  · cases hpre
  · exact absurd (congrArg (fun b => [b]) (Option.some.inj hpre)) hroot
  · simp

/-- The prefix comes off both paths if it stands in front of both. -/
theorem unescape_trimmed_iff {s t : List UInt8} (hdecode : unescape (pre ++ s) = some (pre ++ t)) :
    unescape (rooted slash s) = some (rooted slash t)
      ↔ percent ∉ pre ∧ (t.head? = some slash → s.head? = some slash) := by
  by_cases hescape : percent ∈ pre
  · -- what is left of the escaped path decodes to too much
    refine iff_of_false (fun h => ?_) fun h => h.1 hescape
    obtain ⟨d, hd, hle⟩ := exists_of_unescape_rooted h
    have hlen := length_unescape_append hdecode hd
    have hle' := length_rooted_le t
    rw [if_pos hescape, length_append] at hlen
    omega
  · rw [unescape_append hescape] at hdecode
    obtain ⟨t', hs, heq⟩ := Option.map_eq_some_iff.mp hdecode
    obtain rfl := append_cancel_left heq
    rw [unescape_rooted, hs]
    by_cases hslash : s.head? = some slash
    · have ht : t'.head? = some slash := by
        obtain ⟨s, rfl⟩ := List.head?_eq_some_iff.mp hslash
        exact head?_of_unescape_slash hs
      rw [if_pos hslash, rooted, if_pos ht]
      exact iff_of_true rfl ⟨hescape, fun _ => hslash⟩
    · rw [if_neg hslash]
      by_cases ht : t'.head? = some slash
      · rw [rooted, if_pos ht]
        refine iff_of_false (fun h => ?_) fun h => hslash (h.2 ht)
        have hlen := congrArg List.length (Option.some.inj h)
        rw [length_cons] at hlen
        omega
      · rw [rooted, if_neg ht]
        exact iff_of_true rfl ⟨hescape, fun h => absurd h ht⟩

/-- A request path that is matched but does not begin with the normalised
prefix does not begin with a slash. -/
theorem not_slash_of_not_prefix {path : String} (hmatch : httpRouteMatchesBytes path p = true)
    (hp : p ≠ []) (hroot : utf8 (normalizeProxyPathPrefix path).toList ≠ [slash])
    (hpre : ¬ utf8 (normalizeProxyPathPrefix path).toList <+: p) : p.head? ≠ some slash := by
  intro hslash
  have hne : path ≠ "" ∧ path ≠ "/" := by
    constructor <;> (rintro rfl; exact hroot (by decide))
  rw [httpRouteMatchesBytes, if_neg (by simp [hne.1, hne.2]), if_neg hp,
    List.isPrefixOf_iff_prefix] at hmatch
  have hhead : path.toList.head? = some '/' := by
    obtain ⟨rest, rfl⟩ := hmatch
    rw [← slash_utf8_iff, ← hslash]
    refine (List.head?_append_of_ne_nil _ ?_).symm
    exact utf8_eq_nil_iff.not.mpr (String.toList_eq_nil_iff.not.mpr hne.1)
  obtain ⟨hnorm, spaces, hsplit, -⟩ := normalizeProxyPathPrefix_eq_trimSpace hhead
  refine hpre (List.IsPrefix.trans ?_ hmatch)
  rw [utf8_prefix_iff, hnorm, hsplit]
  exact prefix_append _ _

/-- The forwarded escaped path decodes to the forwarded path exactly if there
is none, or nothing is taken off, or the prefix comes off both. -/
theorem rewriteUpstreamBytes_consistent_iff (pre : String) {requestPath rawPath : List UInt8}
    (hmatch : httpRouteMatchesBytes pre requestPath = true)
    (hraw : Consistent requestPath rawPath) :
    Consistent (rewriteUpstreamBytes pre requestPath rawPath).1
        (rewriteUpstreamBytes pre requestPath rawPath).2
      ↔ rawPath = [] ∨ utf8 (normalizeProxyPathPrefix pre).toList = [slash]
        ∨ ¬ utf8 (normalizeProxyPathPrefix pre).toList <+: requestPath
        ∨ RawPrefix (utf8 (normalizeProxyPathPrefix pre).toList) requestPath rawPath := by
  by_cases hq : rawPath = []
  · rw [rewriteUpstreamBytes, if_pos hq]
    exact iff_of_true (Or.inl hq) (Or.inl hq)
  have hdecode := hraw.resolve_left hq
  have hp : requestPath ≠ [] := by
    rintro rfl
    exact hq (eq_nil_of_unescape hdecode)
  have hhead : (utf8 (normalizeProxyPathPrefix pre).toList).head? = some slash :=
    slash_utf8_iff.mpr (head?_normalizeProxyPathPrefix pre)
  have hnotSlash := not_slash_of_not_prefix hmatch hp
  rw [rewriteUpstreamBytes, if_neg hp, if_neg hq]
  generalize utf8 (normalizeProxyPathPrefix pre).toList = P at hhead hnotSlash ⊢
  by_cases hroot : P = [slash]
  · rw [hroot, trimMatched_root hp, trimMatched_root hq]
    exact iff_of_true hraw (Or.inr (Or.inl rfl))
  have hne : P ≠ [] := by
    rintro rfl
    cases hhead
  simp only [hq, hroot, false_or]
  by_cases hprefix : P <+: requestPath
  · obtain ⟨t, rfl⟩ := hprefix
    rw [trimMatched_append hroot hne]
    by_cases hstands : P <+: rawPath
    · obtain ⟨s, rfl⟩ := hstands
      rw [trimMatched_append hroot hne, Consistent, or_iff_right (rooted_ne_nil s),
        unescape_trimmed_iff hdecode]
      have hslashed : ∀ l : List UInt8, P ++ [slash] <+: P ++ l ↔ l.head? = some slash := fun l =>
        (prefix_append_right_inj P).trans singleton_prefix_iff
      constructor
      · rintro ⟨hescape, hslash⟩
        refine Or.inr ⟨hescape, prefix_append P s, ?_⟩
        rw [hslashed, hslashed]
        exact hslash
      · rintro (h | ⟨hescape, -, hslash⟩)
        · exact absurd (prefix_append P t) h
        · rw [hslashed, hslashed] at hslash
          exact ⟨hescape, hslash⟩
    · -- the prefix stays in the escaped path, which then decodes to more than is left
      rw [trimMatched_unmatched hroot hstands hq, Consistent, or_iff_right (rooted_ne_nil _)]
      refine iff_of_false (fun h => ?_) ?_
      · obtain ⟨d, hd, hle⟩ := exists_of_unescape_rooted h
        obtain rfl := Option.some.inj (hdecode.symm.trans hd)
        have hle' := length_rooted_le t
        have htwo := two_le_length hhead hroot
        rw [length_append] at hle
        omega
      · rintro (h | h)
        · exact h (prefix_append P t)
        · exact hstands h.stands
  · -- neither path begins with a slash, so both get one
    have hslash := hnotSlash hroot hprefix
    have hslash' : rawPath.head? ≠ some slash := by
      intro h
      obtain ⟨l, rfl⟩ := List.head?_eq_some_iff.mp h
      exact hslash (head?_of_unescape_slash hdecode)
    have hstands : ¬ P <+: rawPath := by
      rintro ⟨s, rfl⟩
      rw [List.head?_append_of_ne_nil _ hne] at hslash'
      exact hslash' hhead
    rw [trimMatched_unmatched hroot hprefix hp, trimMatched_unmatched hroot hstands hq, rooted,
      if_neg hslash, rooted, if_neg hslash']
    refine iff_of_true (Or.inr ?_) (Or.inl hprefix)
    rw [unescape_slash_cons, hdecode]
    rfl

def textBytes (s : String) : List UInt8 := utf8 s.toList

theorem consistent_api_escaped :
    rewriteUpstreamBytes "/api" (textBytes "/api/x/y") (textBytes "/api/x%2Fy")
        = (textBytes "/x/y", textBytes "/x%2Fy")
      ∧ Consistent (rewriteUpstreamBytes "/api" (textBytes "/api/x/y") (textBytes "/api/x%2Fy")).1
        (rewriteUpstreamBytes "/api" (textBytes "/api/x/y") (textBytes "/api/x%2Fy")).2 := by
  refine ⟨by decide +kernel, ?_⟩
  refine (rewriteUpstreamBytes_consistent_iff "/api" (by decide +kernel) (by decide +kernel)).mpr ?_
  exact Or.inr (Or.inr (Or.inr ⟨by decide +kernel, by decide +kernel, by decide +kernel⟩))

/-- An escape inside the prefix keeps it in the escaped path, while the path
loses it. -/
theorem escaped_prefix_inconsistent :
    httpRouteMatchesBytes "/api" (textBytes "/api/x/y") = true
      ∧ Consistent (textBytes "/api/x/y") (textBytes "/%61pi/x%2Fy")
      ∧ rewriteUpstreamBytes "/api" (textBytes "/api/x/y") (textBytes "/%61pi/x%2Fy")
        = (textBytes "/x/y", textBytes "/%61pi/x%2Fy")
      ∧ ¬ Consistent (textBytes "/x/y") (textBytes "/%61pi/x%2Fy") := by
  decide +kernel

end Ingress

end LunaEdge
