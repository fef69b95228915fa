import CoreShell.Program.Intern
import Mathlib.Tactic.Common

/-!
# Keyed Arrays

Arrays with one entry per key, which is how units, types and fields are
interned. An entry is found by its key, adding an entry under a new key
disturbs no other, and neither does changing an entry under the key it has.

## Main definitions

* `Distinct`: No two entries of an array have the same key.
* `entryAt`: The entry with a key.
* `keep`: One more key in a list without repetition.

## Theorems

* `distinct_nodup`: Distinct keys make a list without repetition.
* `distinct_push`, `distinct_modify`: Adding and changing keep keys distinct.
* `entryAt_eq_some`: With distinct keys, an entry is found by its own key.
* `entryAt_push`, `entryAt_modify`: What is found after adding and changing.
* `findIdx?_cases`: The search for a key finds it or there is none.
* `findIdx?_eq_some_iff`: With distinct keys, it finds the one entry there is.
* `intern_cases`: A key is found, or added at the end.
* `intern_keys`, `foldl_keep`: Interned keys stand in the order of first mention.
* `nodup_keep`, `nodup_eraseDups`: Keys that are kept once are not repeated.
-/

namespace CoreShell

section Keys

variable {α κ : Type}

/-- No two entries have the same key. -/
def Distinct (key : α → κ) (entries : Array α) : Prop :=
  ∀ (i j : Nat) (a b : α), entries[i]? = some a → entries[j]? = some b → key a = key b → i = j

theorem getElem?_push_cases {entries : Array α} {x a : α} {i : Nat}
    (h : (entries.push x)[i]? = some a) : entries[i]? = some a ∨ (i = entries.size ∧ a = x) := by
  rw [Array.getElem?_push] at h
  by_cases hi : i = entries.size
  · rw [if_pos hi, Option.some.injEq] at h
    exact Or.inr ⟨hi, h.symm⟩
  · rw [if_neg hi] at h
    exact Or.inl h

theorem lt_size_of_getElem? {entries : Array α} {a : α} {i : Nat} (h : entries[i]? = some a) :
    i < entries.size :=
  (Array.getElem?_eq_some_iff.1 h).1

theorem getElem?_of_lt_size {entries : Array α} {i : Nat} (h : i < entries.size) :
    ∃ a, entries[i]? = some a :=
  ⟨entries[i], Array.getElem?_eq_getElem h⟩

theorem getElem?_push_of_lt {entries : Array α} {x : α} {i : Nat} (h : i < entries.size) :
    (entries.push x)[i]? = entries[i]? := by
  rw [Array.getElem?_push, if_neg (by omega)]

/-- Distinct keys make a list of keys without repetition. -/
theorem distinct_nodup {key : α → κ} {entries : Array α} (h : Distinct key entries) :
    (entries.toList.map key).Nodup := by
  refine List.pairwise_iff_getElem.2 fun i j hi hj hlt heq => ?_
  -- Positions with the same key are the same, so `i < j` is impossible.
  rw [List.length_map] at hi hj
  rw [List.getElem_map, List.getElem_map] at heq
  have hat : ∀ {k : Nat} (hk : k < entries.toList.length),
      entries[k]? = some entries.toList[k] :=
    fun hk => Array.getElem?_eq_getElem hk
  exact Nat.ne_of_lt hlt (h i j _ _ (hat hi) (hat hj) heq)

theorem distinct_push {key : α → κ} {entries : Array α} {x : α} (h : Distinct key entries)
    (hx : ∀ (i : Nat) (a : α), entries[i]? = some a → key a ≠ key x) :
    Distinct key (entries.push x) := by
  intro i j a b ha hb hab
  rcases getElem?_push_cases ha with hold | ⟨hi, rfl⟩
  · rcases getElem?_push_cases hb with hold' | ⟨_, rfl⟩
    · exact h i j a b hold hold' hab
    -- The key of the new entry is none of the old ones.
    · exact absurd hab (hx i a hold)
  · rcases getElem?_push_cases hb with hold | ⟨hj, _⟩
    · exact absurd hab.symm (hx j b hold)
    · rw [hi, hj]

/-- What stands at a position after an entry was changed. -/
theorem getElem?_modify_cases {entries : Array α} {f : α → α} {id i : Nat} {a : α}
    (h : (entries.modify id f)[i]? = some a) :
    (i = id ∧ ∃ b, entries[id]? = some b ∧ a = f b) ∨ (i ≠ id ∧ entries[i]? = some a) := by
  rw [Array.getElem?_modify] at h
  by_cases hi : id = i
  · rw [if_pos hi] at h
    rcases Option.map_eq_some_iff.1 h with ⟨b, hb, rfl⟩
    exact Or.inl ⟨hi.symm, b, by rw [hi]; exact hb, rfl⟩
  · rw [if_neg hi] at h
    exact Or.inr ⟨fun hc => hi hc.symm, h⟩

/-- A change that keeps all keys keeps them distinct. -/
theorem distinct_modify {key : α → κ} {entries : Array α} {f : α → α} (id : Nat)
    (h : Distinct key entries) (hf : ∀ a, key (f a) = key a) :
    Distinct key (entries.modify id f) := by
  have hkey : ∀ (i : Nat) (a : α), (entries.modify id f)[i]? = some a →
      ∃ b, entries[i]? = some b ∧ key b = key a := by
    intro i a ha
    rcases getElem?_modify_cases ha with ⟨rfl, b, hb, rfl⟩ | ⟨_, ha⟩
    · exact ⟨b, hb, (hf b).symm⟩
    · exact ⟨a, ha, rfl⟩
  intro i j a b ha hb hab
  rcases hkey i a ha with ⟨a', ha', hka⟩
  rcases hkey j b hb with ⟨b', hb', hkb⟩
  exact h i j a' b' ha' hb' (by rw [hka, hkb, hab])

/-- A change that keeps all keys keeps their list. -/
theorem map_key_modify {key : α → κ} {f : α → α} (hf : ∀ a, key (f a) = key a) (entries : Array α)
    (id : Nat) : (entries.modify id f).toList.map key = entries.toList.map key := by
  refine List.ext_getElem? fun i => ?_
  rw [List.getElem?_map, List.getElem?_map, Array.getElem?_toList, Array.getElem?_toList,
    Array.getElem?_modify]
  by_cases hi : id = i
  · rw [if_pos hi, Option.map_map]
    congr 1
    funext a
    exact hf a
  · rw [if_neg hi]

variable [DecidableEq κ]

/-- The entry with a key, looked up by the key. -/
def entryAt (key : α → κ) (k : κ) (entries : Array α) : Option α :=
  entries.find? fun a => key a = k

theorem entryAt_eq_none {key : α → κ} {k : κ} {entries : Array α}
    (h : ∀ (i : Nat) (a : α), entries[i]? = some a → key a ≠ k) : entryAt key k entries = none := by
  rw [entryAt, Array.find?_eq_none]
  intro a ha
  rcases Array.mem_iff_getElem?.1 ha with ⟨i, hi⟩
  simpa using h i a hi

theorem of_entryAt_eq_some {key : α → κ} {k : κ} {entries : Array α} {a : α}
    (h : entryAt key k entries = some a) : key a = k ∧ ∃ i : Nat, entries[i]? = some a := by
  refine ⟨by simpa using Array.find?_some h, ?_⟩
  exact Array.mem_iff_getElem?.1 (Array.mem_of_find?_eq_some h)

/-- With distinct keys, an entry is found by its own key. -/
theorem entryAt_eq_some {key : α → κ} {entries : Array α} (h : Distinct key entries) {i : Nat}
    {a : α} (ha : entries[i]? = some a) : entryAt key (key a) entries = some a := by
  rcases hfind : entryAt key (key a) entries with _ | b
  · rw [entryAt, Array.find?_eq_none] at hfind
    have := hfind a (Array.mem_of_getElem? ha)
    simp only [decide_true, not_true] at this
  · rcases of_entryAt_eq_some hfind with ⟨hkey, j, hb⟩
    have hij : j = i := h j i b a hb ha hkey
    rw [hij, ha] at hb
    exact hb.symm

theorem entryAt_push (key : α → κ) (k : κ) (entries : Array α) (x : α) :
    entryAt key k (entries.push x) =
      (entryAt key k entries).or (if key x = k then some x else none) := by
  simp only [entryAt, Array.find?_push, decide_eq_true_eq]

/-- Changing an entry under its key changes what is found there, and nothing
    else. -/
theorem entryAt_modify {key : α → κ} {entries : Array α} {f : α → α} {id : Nat} {a : α}
    (h : Distinct key entries) (hf : ∀ b, key (f b) = key b) (ha : entries[id]? = some a) (k : κ) :
    entryAt key k (entries.modify id f) =
      if k = key a then some (f a) else entryAt key k entries := by
  have hdist := distinct_modify (f := f) id h hf
  by_cases hk : k = key a
  · -- The changed entry is still found by its key.
    have hpos : (entries.modify id f)[id]? = some (f a) := by
      rw [Array.getElem?_modify, if_pos rfl, ha, Option.map_some]
    rw [if_pos hk, hk, ← hf a]
    exact entryAt_eq_some hdist hpos
  · rw [if_neg hk]
    -- Any other key is found after the change where it was found before.
    rcases hfind : entryAt key k entries with _ | b
    · apply entryAt_eq_none
      intro i c hc hkc
      rcases getElem?_modify_cases hc with ⟨_, b, hb, rfl⟩ | ⟨_, hc⟩
      · rw [ha, Option.some.injEq] at hb
        rw [hf b, ← hb] at hkc
        exact hk hkc.symm
      · rw [← hkc, entryAt_eq_some h hc] at hfind
        exact absurd hfind (by simp only [reduceCtorEq, not_false_eq_true])
    · rcases of_entryAt_eq_some hfind with ⟨hkb, i, hb⟩
      have hne : id ≠ i := by
        intro hi
        rw [← hi, ha, Option.some.injEq] at hb
        exact hk (by rw [hb, hkb])
      have hpos : (entries.modify id f)[i]? = some b := by
        rw [Array.getElem?_modify, if_neg hne, hb]
      rw [← hkb]
      exact entryAt_eq_some hdist hpos

/-- The search for a key ends at an entry that has it, or no entry has it. -/
theorem findIdx?_cases (key : α → κ) (k : κ) (entries : Array α) :
    (∃ (i : Nat) (a : α), entries[i]? = some a ∧ key a = k ∧
      entries.findIdx? (fun entry => decide (key entry = k)) = some i) ∨
    ((∀ (i : Nat) (a : α), entries[i]? = some a → key a ≠ k) ∧
      entries.findIdx? (fun entry => decide (key entry = k)) = none) := by
  rcases hfind : entries.findIdx? (fun entry => decide (key entry = k)) with _ | i
  · refine Or.inr ⟨fun i a ha hk => ?_, rfl⟩
    rw [Array.findIdx?_eq_none_iff] at hfind
    have := hfind a (Array.mem_of_getElem? ha)
    simp only [hk, decide_true, Bool.true_eq_false] at this
  · rcases Array.findIdx?_eq_some_iff_getElem.1 hfind with ⟨hi, hkey, _⟩
    exact Or.inl ⟨i, entries[i], Array.getElem?_eq_getElem hi, by simpa using hkey, rfl⟩

/-- With distinct keys, the search for a key ends at the one entry that has
    it. -/
theorem findIdx?_eq_some_iff {key : α → κ} {entries : Array α} (h : Distinct key entries) {k : κ}
    {i : Nat} :
    entries.findIdx? (fun entry => decide (key entry = k)) = some i ↔
      ∃ a, entries[i]? = some a ∧ key a = k := by
  rcases findIdx?_cases key k entries with ⟨j, b, hb, hkey, hfind⟩ | ⟨hnone, hfind⟩
  · rw [hfind, Option.some.injEq]
    constructor
    · rintro rfl
      exact ⟨b, hb, hkey⟩
    · rintro ⟨a, ha, hkey'⟩
      exact h j i b a hb ha (hkey.trans hkey'.symm)
  · rw [hfind]
    refine iff_of_false (by simp) ?_
    rintro ⟨a, ha, hkey⟩
    exact hnone i a ha hkey

/-- A key is found at a position that has it, or it is new and gets a fresh
    entry at the end. -/
theorem intern_cases (key : α → κ) (fresh : Nat → α) (k : κ) (entries : Array α) :
    (∃ (i : Nat) (a : α), entries[i]? = some a ∧ key a = k ∧
      intern key fresh k entries = (entries, i)) ∨
    ((∀ (i : Nat) (a : α), entries[i]? = some a → key a ≠ k) ∧
      intern key fresh k entries = (entries.push (fresh entries.size), entries.size)) := by
  rcases findIdx?_cases key k entries with ⟨i, a, ha, hk, hfind⟩ | ⟨hnew, hfind⟩
  · exact Or.inl ⟨i, a, ha, hk, by simp only [intern, hfind]⟩
  · exact Or.inr ⟨hnew, by simp only [intern, hfind]⟩

/-- The known keys and one more at the end, unless it is among them. -/
def keep (known : List κ) (k : κ) : List κ :=
  if k ∈ known then known else known ++ [k]

theorem keep_eraseDups (known : List κ) (k : κ) :
    keep known.eraseDups k = (known ++ [k]).eraseDups := by
  rw [keep, List.eraseDups_append]
  by_cases hk : k ∈ known
  · simp [hk, List.removeAll]
  · simp [hk, List.removeAll, List.eraseDups_cons]

/-- Keys that are kept one after another stand in the order of first mention. -/
theorem foldl_keep (known l : List κ) : l.foldl keep known.eraseDups = (known ++ l).eraseDups := by
  induction l generalizing known with
  | nil => rw [List.foldl_nil, List.append_nil]
  | cons k rest ih =>
      rw [List.foldl_cons, keep_eraseDups, ih, List.append_assoc]
      rfl

theorem mem_keep {known : List κ} {k x : κ} : x ∈ keep known k ↔ x ∈ known ∨ x = k := by
  unfold keep
  by_cases hk : k ∈ known
  · rw [if_pos hk]
    refine ⟨Or.inl, fun h => h.elim id ?_⟩
    rintro rfl
    exact hk
  · rw [if_neg hk, List.mem_append, List.mem_singleton]

/-- Keeping a key never adds one that is there. -/
theorem nodup_keep {known : List κ} (h : known.Nodup) (k : κ) : (keep known k).Nodup := by
  unfold keep
  by_cases hk : k ∈ known
  · rw [if_pos hk]
    exact h
  · rw [if_neg hk]
    refine List.nodup_append.2 ⟨h, by simp, fun a ha b hb => ?_⟩
    rw [List.mem_singleton.1 hb]
    exact fun hc => hk (hc ▸ ha)

theorem nodup_eraseDups (l : List κ) : l.eraseDups.Nodup := by
  have hkeep : l.foldl keep [] = l.eraseDups := foldl_keep [] l
  rw [← hkeep]
  exact List.foldlRecOn l keep List.nodup_nil fun _ hknown k _ => nodup_keep hknown k

/-- Interning a key keeps it among the keys of the entries. -/
theorem intern_keys (key : α → κ) (fresh : Nat → α) (k : κ) (entries : Array α)
    (hfresh : ∀ n, key (fresh n) = k) :
    (intern key fresh k entries).1.toList.map key = keep (entries.toList.map key) k := by
  have hmem : k ∈ entries.toList.map key ↔
      ∃ (i : Nat) (a : α), entries[i]? = some a ∧ key a = k := by
    simp only [List.mem_map, Array.mem_toList_iff, Array.mem_iff_getElem?]
    constructor
    · rintro ⟨a, ⟨i, ha⟩, hkey⟩
      exact ⟨i, a, ha, hkey⟩
    · rintro ⟨i, a, ha, hkey⟩
      exact ⟨a, ⟨i, ha⟩, hkey⟩
  rcases intern_cases key fresh k entries with ⟨i, a, ha, hkey, h⟩ | ⟨hnew, h⟩
  · rw [h, keep, if_pos (hmem.2 ⟨i, a, ha, hkey⟩)]
  · have hunknown : k ∉ entries.toList.map key := by
      rw [hmem]
      rintro ⟨i, a, ha, hkey⟩
      exact hnew i a ha hkey
    rw [h, keep, if_neg hunknown, Array.toList_push, List.map_append, List.map_singleton, hfresh]

end Keys

end CoreShell
