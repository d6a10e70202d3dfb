import Mathlib.Data.List.DropRight

/-!
The path of a URL: its place in the URL, its segments, and the removal of dot
segments.

A path is a list of characters; its segments stand between the slashes. The walk
`climb` goes down one segment for every plain one and up for every `..`.
-/

namespace UrlPath

abbrev Segment := List Char

def split (path : List Char) : List Segment := path.splitOn '/'

def join (segments : List Segment) : List Char := ['/'].intercalate segments

/-- `path` is `base`, or continues it behind a slash. -/
def Under (base path : List Char) : Prop := path = base ∨ base ++ ['/'] <+: path

instance (base path : List Char) : Decidable (Under base path) :=
  inferInstanceAs (Decidable (_ ∨ _))

section Segments

theorem join_split (path : List Char) : join (split path) = path :=
  List.intercalate_splitOn '/'

theorem split_injective {path path' : List Char} (h : split path = split path') :
    path = path' := by
  rw [← join_split path, h, join_split]

theorem split_append_slash (base rest : List Char) :
    split (base ++ '/' :: rest) = split base ++ split rest :=
  List.splitOn_append_cons_self base rest

theorem split_slash (rest : List Char) : split ('/' :: rest) = [] :: split rest :=
  split_append_slash [] rest

theorem split_ne_nil (path : List Char) : split path ≠ [] := List.splitOn_ne_nil '/' path

/-- Text without a slash behind a path continues its last segment. -/
theorem split_append_of_not_mem (path : List Char) {rest : List Char} (h : '/' ∉ rest) :
    ∃ segments last, split path = segments ++ [last] ∧
      split (path ++ rest) = segments ++ [last ++ rest] := by
  induction path with
  | nil => exact ⟨[], [], rfl, List.splitOn_eq_singleton h⟩
  | cons c path ih =>
      obtain ⟨segments, last, hpath, hrest⟩ := ih
      simp only [split, List.cons_append, List.splitOn_cons_eq_if_modifyHead] at hpath hrest ⊢
      rw [hpath, hrest]
      split
      · exact ⟨[] :: segments, last, rfl, rfl⟩
      · cases segments with
        | nil => exact ⟨[], c :: last, rfl, rfl⟩
        | cons s segments => exact ⟨(c :: s) :: segments, last, rfl, rfl⟩

theorem join_append {xs ys : List Segment} (hxs : xs ≠ []) (hys : ys ≠ []) :
    join (xs ++ ys) = join xs ++ '/' :: join ys := by
  induction xs with
  | nil => contradiction
  | cons x xs ih =>
      cases xs with
      | nil =>
          cases ys with
          | nil => contradiction
          | cons y ys => simp [join, List.intercalate_cons_cons]
      | cons x' xs =>
          have := ih (List.cons_ne_nil _ _)
          simp only [join, List.cons_append] at this ⊢
          rw [List.intercalate_cons_cons, List.intercalate_cons_cons, this]
          simp

/-- Whether a path continues another one is a matter of their segments. -/
theorem under_iff {base path : List Char} : Under base path ↔ split base <+: split path := by
  constructor
  · rintro (rfl | ⟨rest, rfl⟩)
    · exact List.prefix_rfl
    · rw [List.append_assoc, List.singleton_append, split_append_slash]
      exact List.prefix_append ..
  · rintro ⟨rest, hrest⟩
    have hpath : path = join (split base ++ rest) := by rw [hrest, join_split]
    cases rest with
    | nil =>
        rw [List.append_nil, join_split] at hpath
        exact Or.inl hpath
    | cons s rest =>
        rw [join_append (split_ne_nil _) (List.cons_ne_nil s rest), join_split] at hpath
        refine Or.inr ⟨join (s :: rest), ?_⟩
        rw [hpath, List.append_assoc, List.singleton_append]

end Segments

section Walk

def dot : Segment := ['.']

def dotDot : Segment := ['.', '.']

def IsDot (s : Segment) : Prop := s = dot ∨ s = dotDot

instance (s : Segment) : Decidable (IsDot s) := inferInstanceAs (Decidable (_ ∨ _))

/-- The segments one stands at behind `segments`, from `position`. -/
def climb (position : List Segment) : List Segment → List Segment
  | [] => position
  | s :: segments =>
      if s = dot then climb position segments
      else if s = dotDot then climb position.dropLast segments
      else climb (position ++ [s]) segments

/-- A path that ends in a dot segment ends in a slash; a parser without `keepSlash`
drops that slash too. -/
def walk (keepSlash : Bool) (position segments : List Segment) : List Segment :=
  climb position segments ++
    if keepSlash = true ∧ ∃ s ∈ segments.getLast?, IsDot s then [[]] else []

def removeDotSegments (keepSlash : Bool) (segments : List Segment) : List Segment :=
  walk keepSlash [] segments

theorem climb_append (position xs ys : List Segment) :
    climb position (xs ++ ys) = climb (climb position xs) ys := by
  induction xs generalizing position with
  | nil => rfl
  | cons x xs ih =>
      simp only [List.cons_append, climb]
      split
      · exact ih _
      · split <;> exact ih _

theorem climb_plain {segments : List Segment} (h : ∀ s ∈ segments, ¬ IsDot s)
    (position : List Segment) : climb position segments = position ++ segments := by
  induction segments generalizing position with
  | nil => simp [climb]
  | cons s segments ih =>
      have hs := h s (List.mem_cons_self ..)
      have hdot : s ≠ dot := fun hdot => hs (Or.inl hdot)
      have hdotDot : s ≠ dotDot := fun hdotDot => hs (Or.inr hdotDot)
      rw [climb, if_neg hdot, if_neg hdotDot, ih fun t ht => h t (List.mem_cons_of_mem _ ht)]
      simp

/-- A path without dot segments stays as it is. -/
theorem removeDotSegments_plain {keepSlash : Bool} {segments : List Segment}
    (h : ∀ s ∈ segments, ¬ IsDot s) : removeDotSegments keepSlash segments = segments := by
  have hlast : ¬ (keepSlash = true ∧ ∃ s ∈ segments.getLast?, IsDot s) := by
    rintro ⟨_, s, hs, hdot⟩
    exact h s (List.mem_of_getLast? hs) hdot
  rw [removeDotSegments, walk, climb_plain h, if_neg hlast, List.nil_append, List.append_nil]

/-- The removal walks down a plain base first. -/
theorem removeDotSegments_append {keepSlash : Bool} {base : List Segment}
    (hbase : ∀ s ∈ base, ¬ IsDot s) (segments : List Segment) :
    removeDotSegments keepSlash (base ++ segments) = walk keepSlash base segments := by
  have hlast : (∃ s ∈ (base ++ segments).getLast?, IsDot s) ↔ ∃ s ∈ segments.getLast?, IsDot s := by
    cases segments with
    | nil =>
        simp only [List.append_nil, List.getLast?_nil]
        constructor
        · rintro ⟨s, hs, hdot⟩
          exact absurd hdot (hbase s (List.mem_of_getLast? hs))
        · rintro ⟨s, hs, _⟩
          contradiction
    | cons s segments => rw [List.getLast?_append_of_ne_nil _ (List.cons_ne_nil s segments)]
  simp only [removeDotSegments, walk, climb_append, climb_plain hbase, List.nil_append, hlast]

end Walk

section Url

/-- What is left of a path before a query or a fragment. -/
def cut (path : List Char) : List Char := path.takeWhile fun c => c ∉ ['?', '#']

/-- The path of an absolute URL with an authority. -/
def urlPath (url : List Char) : List Char :=
  cut (((url.dropWhile (· ≠ ':')).drop 3).dropWhile fun c => c ∉ ['/', '?', '#'])

/-- A URL of a scheme and an authority, and at most slashes behind them. -/
def IsOrigin (url : List Char) : Prop :=
  ∃ scheme authority slashes, url = scheme ++ ':' :: '/' :: '/' :: (authority ++ slashes) ∧
    ':' ∉ scheme ∧ authority ≠ [] ∧ (∀ c ∈ authority, c ∉ ['/', '?', '#']) ∧
    ∀ c ∈ slashes, c = '/'

theorem cut_of_plain {path : List Char} (h : ∀ c ∈ path, c ∉ ['?', '#']) : cut path = path :=
  List.takeWhile_eq_self_iff.mpr fun c hc => decide_eq_true (h c hc)

theorem cut_append {base : List Char} (h : ∀ c ∈ base, c ∉ ['?', '#']) (path : List Char) :
    cut (base ++ path) = base ++ cut path :=
  List.takeWhile_append_of_pos fun c hc => decide_eq_true (h c hc)

private theorem rdropWhile_append_of_pos {α : Type} {p : α → Bool} {xs ys : List α}
    (h : ∀ y ∈ ys, p y = true) : (xs ++ ys).rdropWhile p = xs.rdropWhile p := by
  rw [List.rdropWhile, List.reverse_append,
    List.dropWhile_append_of_pos fun y hy => h y (List.mem_reverse.mp hy), List.rdropWhile]

/-- A path put behind an origin is the path of the URL. -/
theorem urlPath_of_origin {url : List Char} (h : IsOrigin url) (path : List Char) :
    urlPath (url.rdropWhile (· = '/') ++ '/' :: path) = '/' :: cut path := by
  obtain ⟨scheme, authority, slashes, rfl, hscheme, hne, hauthority, hslashes⟩ := h
  have hlast : (scheme ++ ':' :: '/' :: '/' :: authority).rdropWhile (· = '/') =
      scheme ++ ':' :: '/' :: '/' :: authority := by
    refine List.rdropWhile_eq_self_iff.mpr ?_
    intro _ hslash
    have hmem : authority.getLast hne ∈ authority := List.getLast_mem hne
    have hslash : authority.getLast hne = '/' := by simpa [hne] using hslash
    exact hauthority _ hmem (by simp [hslash])
  have hstripped : (scheme ++ ':' :: '/' :: '/' :: (authority ++ slashes)).rdropWhile (· = '/') =
      scheme ++ ':' :: '/' :: '/' :: authority := by
    have hassoc : scheme ++ ':' :: '/' :: '/' :: (authority ++ slashes) =
        (scheme ++ ':' :: '/' :: '/' :: authority) ++ slashes := by simp
    rw [hassoc, rdropWhile_append_of_pos fun c hc => decide_eq_true (hslashes c hc), hlast]
  have hauthority (c : Char) (hc : c ∈ authority) : decide (c ∉ ['/', '?', '#']) = true :=
    decide_eq_true (hauthority c hc)
  have hscheme (c : Char) (hc : c ∈ scheme) : decide (c ≠ ':') = true :=
    decide_eq_true fun heq => hscheme (heq ▸ hc)
  rw [hstripped, urlPath, List.append_assoc, List.dropWhile_append_of_pos hscheme]
  have hcolon (rest : List Char) :
      ((':' :: '/' :: '/' :: rest).dropWhile fun c => c ≠ ':').drop 3 = rest := by simp
  rw [List.cons_append, List.cons_append, List.cons_append, hcolon,
    List.dropWhile_append_of_pos hauthority]
  simp [cut]

end Url

end UrlPath
