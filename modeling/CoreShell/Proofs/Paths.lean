import CoreShell.Path
import CoreShell.Proofs.Texts

/-!
# Parents of Paths

The parent of a path is found by cutting its text, and which cut is right depends on what
stands at the end: slashes and single dots that name nothing, or a name. Seen as a list of
components it is simple. A path has a component for the root or for a leading dot, and one for
every name, and its parent has all of them but the last. Only the empty path, which has no
components, and the root, which has no other, do not have a parent.

## Main definitions

* `Path.components`: The root or the leading dot, and the names.
* `Path.Above`: The directories on the way up.

## Theorems

* `Path.divide_join`: A path that was put together again starts where it did.
* `Path.components_parent?`: The parent has all components but the last.
* `Path.parent?_prefix`: The text of the parent begins the text of the path.
* `Path.getElem?_ancestors`: The ancestors are the directories on the way up.
-/

namespace CoreShell

namespace Path

/-- What a path consists of: the root or a leading dot, if it starts there, and its names. -/
def components (path : String) : List (List Char) :=
  let (start, rest) := divide path.toList
  (if start = [] then [] else [start]) ++ (rest.splitOn '/').filter isName

/-- The directories on the way up from a path, counted from the path itself. -/
inductive Above (start : String) : Nat → String → Prop
  | start : Above start 0 start
  | parent {n : Nat} {directory parent : String} (below : Above start n directory)
      (up : parent? directory = some parent) : Above start (n + 1) parent

theorem divide_append (cs : List Char) : (divide cs).1 ++ (divide cs).2 = cs := by
  unfold divide
  split <;> rfl

section Trailing

variable (pieces : List (List Char))

theorem dropTrailing_prefix_self : dropTrailing pieces <+: pieces :=
  List.rdropWhile_prefix _ _

/-- What is dropped at the end are no names. -/
theorem filter_dropTrailing : (dropTrailing pieces).filter isName = pieces.filter isName := by
  have hdropped : (pieces.rtakeWhile fun piece => !isName piece).filter isName = [] := by
    refine List.filter_eq_nil_iff.2 fun piece hpiece => ?_
    simpa using List.mem_rtakeWhile_imp hpiece
  have hsplit : dropTrailing pieces ++ pieces.rtakeWhile (fun piece => !isName piece) = pieces :=
    List.rdropWhile_append_rtakeWhile
  conv_rhs => rw [← hsplit, List.filter_append, hdropped, List.append_nil]

/-- What is left ends with a name. -/
theorem isName_getLast_dropTrailing (h : dropTrailing pieces ≠ []) :
    isName ((dropTrailing pieces).getLast h) = true := by
  have hlast := List.rdropWhile_last_not (fun piece => !isName piece) pieces h
  rw [Bool.not_eq_true, Bool.not_eq_false'] at hlast
  exact hlast

end Trailing

/-- A path that begins with a name starts from nowhere else. -/
theorem divide_of_isName {first : List Char} (hname : isName first = true)
    (hslash : '/' ∉ first) (tail : List Char) :
    divide (first ++ tail) = ([], first ++ tail) := by
  simp only [isName, ne_eq, Bool.and_eq_true, decide_eq_true_eq] at hname
  rcases first with _ | ⟨c, more⟩
  · exact absurd rfl hname.1
  rw [List.mem_cons, not_or] at hslash
  unfold divide
  split
  · next heq => exact absurd (List.cons.inj heq).1.symm hslash.1
  · next heq =>
      rw [List.cons_append, List.cons.injEq, List.append_eq_nil_iff] at heq
      exact absurd (by rw [heq.1, heq.2.1]) hname.2
  · next heq =>
      rw [List.cons_append, List.cons.injEq] at heq
      rcases more with _ | ⟨d, more⟩
      · exact absurd (by rw [heq.1]) hname.2
      · exact absurd (by rw [(List.cons.inj heq.2).1]; exact List.mem_cons_self) hslash.2
  · rfl

/-- Where a path starts. One that starts nowhere else begins with a name or is empty. -/
theorem divide_cases (cs : List Char) :
    (∃ rest, divide cs = (['/'], rest)) ∨
    (∃ rest, divide cs = (['.'], rest) ∧ (rest = [] ∨ ∃ more, rest = '/' :: more)) ∨
    (divide cs = ([], cs) ∧
      (cs = [] ∨ ∃ first others, cs.splitOn '/' = first :: others ∧ isName first = true)) := by
  unfold divide
  split
  · exact Or.inl ⟨_, rfl⟩
  · exact Or.inr (Or.inl ⟨_, rfl, Or.inl rfl⟩)
  · exact Or.inr (Or.inl ⟨_, rfl, Or.inr ⟨_, rfl⟩⟩)
  · next hroot hdot hdots =>
      refine Or.inr (Or.inr ⟨rfl, ?_⟩)
      rcases hpieces : cs.splitOn '/' with _ | ⟨first, others⟩
      · exact absurd hpieces (List.splitOn_ne_nil '/' cs)
      rcases Text.exists_tail_of_splitOn hpieces with ⟨tail, rfl, htail⟩
      -- The first piece is neither empty nor a dot, since these cases came before.
      by_cases hname : isName first = true
      · exact Or.inr ⟨first, others, rfl, hname⟩
      · simp only [isName, ne_eq, Bool.and_eq_true, decide_eq_true_eq, not_and_or, not_not]
          at hname
        rcases htail with rfl | ⟨more, rfl⟩ <;> rcases hname with rfl | rfl
        · exact Or.inl rfl
        · exact absurd rfl hdot
        · exact absurd rfl (hroot more)
        · exact absurd rfl (hdots more)

/-- A path that is put together again from its first pieces starts where it did. -/
theorem divide_join {cs start rest : List Char} (h : divide cs = (start, rest))
    {kept : List (List Char)} (hkept : kept <+: rest.splitOn '/')
    (hlast : ∀ piece ∈ kept.getLast?, isName piece = true) :
    divide (start ++ ['/'].intercalate kept) = (start, ['/'].intercalate kept) := by
  rcases kept with _ | ⟨piece, kept⟩
  · rcases divide_cases cs with ⟨_, hc⟩ | ⟨_, hc, _⟩ | ⟨hc, _⟩ <;>
      rw [hc, Prod.mk.injEq] at h <;> rw [← h.1] <;> rfl
  rcases divide_cases cs with ⟨_, hc⟩ | ⟨_, hc, hrest⟩ | ⟨hc, hfirst⟩ <;>
    rw [hc, Prod.mk.injEq] at h <;> rcases h with ⟨rfl, rfl⟩
  · rfl
  · -- Behind the dot comes an empty piece, and it cannot be the last one.
    have hempty : piece = [] := by
      rcases hrest with rfl | ⟨more, rfl⟩
      · exact (List.cons_prefix_cons.1 hkept).1
      · rw [List.splitOn_cons_eq_if_modifyHead, if_pos (by decide)] at hkept
        exact (List.cons_prefix_cons.1 hkept).1
    subst hempty
    rcases kept with _ | ⟨next, kept⟩
    · exact absurd (hlast [] rfl) (by decide)
    · rw [List.intercalate_cons_cons]
      rfl
  · have hname : isName piece = true := by
      rcases hfirst with rfl | ⟨first, others, hpieces, hname⟩
      · rw [List.splitOn_nil, List.cons_prefix_cons, List.prefix_nil] at hkept
        exact hlast piece (by rw [hkept.2]; rfl)
      · rw [hpieces] at hkept
        rw [(List.cons_prefix_cons.1 hkept).1]
        exact hname
    have hslash : '/' ∉ piece := Text.not_mem_of_mem_splitOn (hkept.subset List.mem_cons_self)
    have hbegin : piece <+: ['/'].intercalate (piece :: kept) := by
      have hfirst := Text.intercalate_prefix ['/'] (show [piece] <+: piece :: kept from ⟨kept, rfl⟩)
      rwa [List.intercalate_singleton] at hfirst
    rcases hbegin with ⟨tail, htail⟩
    rw [List.nil_append, ← htail, divide_of_isName hname hslash]

/-- The components of a path that is put together again are those that were kept. -/
theorem components_join {cs start rest : List Char} (h : divide cs = (start, rest))
    {kept : List (List Char)} (hkept : kept <+: rest.splitOn '/')
    (hlast : ∀ piece ∈ kept.getLast?, isName piece = true) :
    components (String.ofList (start ++ ['/'].intercalate kept)) =
      (if start = [] then [] else [start]) ++ kept.filter isName := by
  have hslash : ∀ piece ∈ kept, '/' ∉ piece :=
    fun piece hpiece => Text.not_mem_of_mem_splitOn (hkept.subset hpiece)
  rw [components, String.toList_ofList, divide_join h hkept hlast]
  exact congrArg _ (Text.splitOn_intercalate_filter hslash (by decide))

/-- The parent of a path has all components but the last. The empty path and the root have
    no parent. -/
theorem components_parent? (path : String) :
    (parent? path).map components =
      if components path = [] ∨ components path = [['/']] then none
      else some (components path).dropLast := by
  rcases hdivide : divide path.toList with ⟨start, rest⟩
  have hcomponents : components path = (if start = [] then [] else [start]) ++
      (dropTrailing (rest.splitOn '/')).filter isName := by
    rw [components, hdivide, filter_dropTrailing]
  rw [parent?, hdivide]
  simp only
  by_cases hnone : dropTrailing (rest.splitOn '/') = []
  · -- Without names there is the root, a dot or nothing.
    rw [hcomponents, hnone, List.filter_nil, List.append_nil]
    rcases divide_cases path.toList with ⟨_, hc⟩ | ⟨_, hc, _⟩ | ⟨hc, _⟩ <;>
      rw [hc, Prod.mk.injEq] at hdivide <;> rw [← hdivide.1] <;> decide
  · have hpieces := dropTrailing_prefix_self (rest.splitOn '/')
    have hname := isName_getLast_dropTrailing (rest.splitOn '/') hnone
    have hsplit := List.dropLast_append_getLast hnone
    generalize dropTrailing (rest.splitOn '/') = pieces at *
    generalize pieces.getLast hnone = last at *
    have hinit := dropTrailing_prefix_self pieces.dropLast
    have hkept : dropTrailing pieces.dropLast <+: rest.splitOn '/' :=
      hinit.trans ((List.dropLast_prefix pieces).trans hpieces)
    have hlast : ∀ piece ∈ (dropTrailing pieces.dropLast).getLast?, isName piece = true := by
      intro piece hpiece
      rcases List.mem_getLast?_eq_getLast hpiece with ⟨hne, rfl⟩
      exact isName_getLast_dropTrailing _ hne
    rw [if_neg (by simpa using hnone), Option.map_some, components_join hdivide hkept hlast,
      filter_dropTrailing]
    -- The last piece is a name, and no name is the root.
    have hnames : components path =
        ((if start = [] then [] else [start]) ++ pieces.dropLast.filter isName) ++ [last] := by
      rw [hcomponents, List.append_assoc, ← hsplit, List.filter_append, List.dropLast_concat]
      simp [hname]
    have hslash : '/' ∉ last := by
      refine Text.not_mem_of_mem_splitOn (hpieces.subset ?_)
      rw [← hsplit]
      exact List.mem_append_right _ List.mem_cons_self
    have hparent : ¬ (components path = [] ∨ components path = [['/']]) := by
      rw [hnames]
      rintro (hc | hc)
      · simp at hc
      · have hroot := congrArg List.getLast? hc
        rw [List.getLast?_concat] at hroot
        rw [Option.some.inj hroot] at hslash
        exact hslash List.mem_cons_self
    rw [if_neg hparent, hnames, List.dropLast_concat]

/-- The text of the parent is where the text of the path begins. -/
theorem parent?_prefix {path parent : String} (h : parent? path = some parent) :
    parent.toList <+: path.toList := by
  rcases hdivide : divide path.toList with ⟨start, rest⟩
  rw [parent?, hdivide] at h
  simp only at h
  split at h
  · split at h
    · rw [← Option.some.inj h]
      exact List.nil_prefix
    · exact absurd h (by simp)
  · have htext := divide_append path.toList
    have hrest : ['/'].intercalate (rest.splitOn '/') = rest := List.intercalate_splitOn '/'
    rw [hdivide, ← hrest] at htext
    rw [← Option.some.inj h, String.toList_ofList, ← htext]
    refine (List.prefix_append_right_inj start).2 (Text.intercalate_prefix ['/'] ?_)
    exact (dropTrailing_prefix_self _).trans
      ((List.dropLast_prefix _).trans (dropTrailing_prefix_self _))

/-- The first step on the way up leads to the parent. -/
theorem above_succ_iff {start directory : String} {n : Nat} :
    Above start (n + 1) directory ↔
      ∃ parent, parent? start = some parent ∧ Above parent n directory := by
  constructor
  · intro h
    induction n generalizing directory with
    | zero =>
        rcases h with _ | ⟨⟨⟩, hup⟩
        exact ⟨directory, hup, .start⟩
    | succ n ih =>
        rcases h with _ | ⟨hbelow, hup⟩
        rcases ih hbelow with ⟨parent, hparent, habove⟩
        exact ⟨parent, hparent, .parent habove hup⟩
  · rintro ⟨parent, hparent, habove⟩
    induction habove with
    | start => exact .parent .start hparent
    | parent _ hup ih => exact .parent ih hup

theorem above_zero_iff {start directory : String} :
    Above start 0 directory ↔ directory = start := by
  constructor
  · rintro ⟨⟩
    rfl
  · rintro rfl
    exact .start

/-- The ancestors of a path are the first directories on the way up. -/
theorem getElem?_ancestors (depth : Nat) (start : String) (n : Nat) (directory : String) :
    (ancestors depth start)[n]? = some directory ↔ n < depth ∧ Above start n directory := by
  induction depth generalizing start n with
  | zero => simp [ancestors]
  | succ depth ih =>
      rw [ancestors]
      cases n with
      | zero => simp [above_zero_iff, eq_comm]
      | succ n =>
          rw [List.getElem?_cons_succ, above_succ_iff, Nat.add_lt_add_iff_right]
          rcases parent? start with _ | parent
          · simp
          · simp [ih]

end Path

end CoreShell
