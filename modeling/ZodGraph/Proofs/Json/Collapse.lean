import Mathlib.Data.String.Basic
import ZodGraph.Proofs.Json.Edit

/-!
Collapsed values. Collapsing sorts the entries of every object by key and keeps the last of a
key, so it changes nothing a second time, makes no value deeper, and turns a change at a path
into a change at the same path.
-/

namespace ZodGraph.Json

/-! ### Sorted entries -/

/-- Entries with keys in strictly rising order. -/
def Sorted (es : List (String × Json)) : Prop := es.Pairwise fun a b => a.1 < b.1

section Entries

variable {k : String} {v : Json} {es : List (String × Json)}

lemma mem_insertEntry {e : String × Json} (h : e ∈ insertEntry k v es) : e = (k, v) ∨ e ∈ es := by
  induction es with
  | nil => simpa [insertEntry] using h
  | cons f es ih =>
    rw [insertEntry] at h
    split at h
    · simpa using h
    · split at h
      · rcases List.mem_cons.1 h with h | h
        · exact .inl h
        · exact .inr (by simp [h])
      · rcases List.mem_cons.1 h with rfl | h
        · exact .inr (by simp)
        · exact (ih h).imp_right fun h => by simp [h]

lemma sorted_insertEntry (h : Sorted es) : Sorted (insertEntry k v es) := by
  induction es with
  | nil => simp [Sorted, insertEntry]
  | cons f es ih =>
    obtain ⟨hfront, hrest⟩ := List.pairwise_cons.1 h
    rw [insertEntry]
    split
    · next hlt =>
      refine List.pairwise_cons.2 ⟨fun e he => ?_, h⟩
      rcases List.mem_cons.1 he with rfl | he
      · exact hlt
      · exact hlt.trans (hfront e he)
    · next hlt =>
      split
      · next heq => exact List.pairwise_cons.2 ⟨heq ▸ hfront, hrest⟩
      · next hne =>
        refine List.pairwise_cons.2 ⟨fun e he => ?_, ih hrest⟩
        rcases mem_insertEntry he with rfl | he
        · exact lt_of_le_of_ne (not_lt.1 hlt) (Ne.symm hne)
        · exact hfront e he

lemma Sorted.unique (h : Sorted es) {w : Json} (hv : (k, v) ∈ es) (hw : (k, w) ∈ es) : v = w := by
  induction es with
  | nil => simp at hv
  | cons f es ih =>
    obtain ⟨hfront, hrest⟩ := List.pairwise_cons.1 h
    rcases List.mem_cons.1 hv with rfl | hvs <;> rcases List.mem_cons.1 hw with hwf | hws
    · exact (Prod.mk.inj hwf).2.symm
    · exact absurd (hfront (k, w) hws) (lt_irrefl k)
    · subst hwf
      exact absurd (hfront (k, v) hvs) (lt_irrefl k)
    · exact ih hrest hvs hws

lemma insertEntry_of_lt (h : ∀ e ∈ es, e.1 < k) : insertEntry k v es = es ++ [(k, v)] := by
  induction es with
  | nil => rfl
  | cons f es ih =>
    have hf := h f (by simp)
    rw [insertEntry, if_neg hf.not_gt, if_neg hf.ne', ih fun e he => h e (by simp [he])]
    rfl

/-- A new entry stands in one place, whatever its value, and is the last of its key. -/
lemma insertEntry_split (h : Sorted es) :
    ∃ pre post, k ∉ post.map Prod.fst ∧ ∀ v, insertEntry k v es = pre ++ (k, v) :: post := by
  induction es with
  | nil => exact ⟨[], [], by simp, fun _ => rfl⟩
  | cons f es ih =>
    obtain ⟨hfront, hrest⟩ := List.pairwise_cons.1 h
    have hnot (hle : k ≤ f.1) : k ∉ es.map Prod.fst := by
      intro hmem
      obtain ⟨e, he, rfl⟩ := List.mem_map.1 hmem
      exact absurd (hfront e he) (not_lt.2 hle)
    by_cases hlt : k < f.1
    · refine ⟨[], f :: es, ?_, fun v => by rw [insertEntry, if_pos hlt]; rfl⟩
      simp [hlt.ne, hnot hlt.le]
    · by_cases heq : k = f.1
      · refine ⟨[], es, hnot heq.le, fun v => ?_⟩
        rw [insertEntry, if_neg hlt, if_pos heq]
        rfl
      · obtain ⟨pre, post, hlast, hinsert⟩ := ih hrest
        refine ⟨f :: pre, post, hlast, fun v => ?_⟩
        rw [insertEntry, if_neg hlt, if_neg heq, hinsert v]
        rfl

/-- An entry of another key leaves an entry in one place, whatever its value. -/
lemma insertEntry_other {k' : String} (hne : k' ≠ k) {pre post : List (String × Json)}
    (hlast : k ∉ post.map Prod.fst) :
    ∃ pre' post', k ∉ post'.map Prod.fst ∧
      ∀ w, insertEntry k' v (pre ++ (k, w) :: post) = pre' ++ (k, w) :: post' := by
  induction pre with
  | nil =>
    by_cases hlt : k' < k
    · exact ⟨[(k', v)], post, hlast, fun w => by simp [insertEntry, hlt]⟩
    · refine ⟨[], insertEntry k' v post, fun hmem => ?_, fun w => by simp [insertEntry, hlt, hne]⟩
      obtain ⟨e, he, rfl⟩ := List.mem_map.1 hmem
      rcases mem_insertEntry he with rfl | he
      · exact hne rfl
      · exact hlast (List.mem_map_of_mem he)
  | cons f pre ih =>
    by_cases hlt : k' < f.1
    · exact ⟨(k', v) :: f :: pre, post, hlast, fun w => by simp [insertEntry, hlt]⟩
    · by_cases heq : k' = f.1
      · exact ⟨(k', v) :: pre, post, hlast, fun w => by simp [insertEntry, heq]⟩
      · obtain ⟨pre', post', hlast', hinsert⟩ := ih
        exact ⟨f :: pre', post', hlast', fun w => by simp [insertEntry, hlt, heq, hinsert w]⟩

end Entries

/-! ### Collapsed values -/

/-- Induction on values, with the parts of lists and objects given by membership. -/
theorem induction {motive : Json → Prop} (scalar : ∀ j, j.collapse = j → motive j)
    (arr : ∀ js, (∀ j ∈ js, motive j) → motive (arr js))
    (obj : ∀ es, (∀ e ∈ es, motive e.2) → motive (obj es)) (j : Json) : motive j :=
  @Json.rec motive (fun js => ∀ j ∈ js, motive j) (fun es => ∀ e ∈ es, motive e.2)
    (fun e => motive e.2)
    (scalar null rfl) (fun _ => scalar _ rfl) (fun _ => scalar _ rfl) (fun _ => scalar _ rfl)
    (fun _ => scalar _ rfl) arr obj
    (by simp) (fun _ _ hj hjs => List.forall_mem_cons.2 ⟨hj, hjs⟩)
    (by simp) (fun _ _ he hes => List.forall_mem_cons.2 ⟨he, hes⟩) (fun _ _ hj => hj) j

lemma collapseItems_eq (js : List Json) : collapseItems js = js.map collapse := by
  induction js with
  | nil => rfl
  | cons j js ih => rw [collapseItems, ih, List.map_cons]

section Collapse

variable {done es : List (String × Json)}

lemma collapseEntries_append (es' : List (String × Json)) :
    collapseEntries done (es ++ es') = collapseEntries (collapseEntries done es) es' := by
  induction es generalizing done with
  | nil => rfl
  | cons e es ih => exact ih

lemma sorted_collapseEntries (h : Sorted done) : Sorted (collapseEntries done es) := by
  induction es generalizing done with
  | nil => exact h
  | cons e es ih => exact ih (sorted_insertEntry h)

lemma mem_collapseEntries {e : String × Json} (h : e ∈ collapseEntries done es) :
    e ∈ done ∨ ∃ e' ∈ es, e.1 = e'.1 ∧ e.2 = e'.2.collapse := by
  induction es generalizing done with
  | nil => exact .inl h
  | cons f es ih =>
    rcases ih h with h | ⟨e', he', heq⟩
    · rcases mem_insertEntry h with rfl | h
      · exact .inr ⟨f, by simp, rfl, rfl⟩
      · exact .inl h
    · exact .inr ⟨e', by simp [he'], heq⟩

/-- Entries that are sorted and hold collapsed values are kept. -/
lemma collapseEntries_of_sorted (h : Sorted (done ++ es)) (hes : ∀ e ∈ es, e.2.collapse = e.2) :
    collapseEntries done es = done ++ es := by
  induction es generalizing done with
  | nil => simp [collapseEntries]
  | cons e es ih =>
    have hlt : ∀ d ∈ done, d.1 < e.1 := fun d hd => (List.pairwise_append.1 h).2.2 d hd e (by simp)
    have hinsert : insertEntry e.1 e.2.collapse done = done ++ [e] := by
      rw [insertEntry_of_lt hlt, hes e (by simp)]
    rw [collapseEntries, hinsert, ih (by simpa using h) fun f hf => hes f (by simp [hf])]
    simp

lemma collapseEntries_other {k : String} {pre post : List (String × Json)}
    (hlast : k ∉ post.map Prod.fst) (hes : k ∉ es.map Prod.fst) :
    ∃ pre' post', k ∉ post'.map Prod.fst ∧
      ∀ w, collapseEntries (pre ++ (k, w) :: post) es = pre' ++ (k, w) :: post' := by
  induction es generalizing pre post with
  | nil => exact ⟨pre, post, hlast, fun _ => rfl⟩
  | cons e es ih =>
    rw [List.map_cons, List.mem_cons, not_or] at hes
    obtain ⟨pre₁, post₁, hlast₁, hinsert⟩ :=
      insertEntry_other (v := e.2.collapse) (Ne.symm hes.1) hlast
    obtain ⟨pre', post', hlast', hrest⟩ := ih hlast₁ hes.2
    refine ⟨pre', post', hlast', fun w => ?_⟩
    rw [collapseEntries, hinsert w, hrest w]

/-- The last entry of a key stands in one place, whatever its value. -/
lemma Sorted.collapseEntries_last (h : Sorted done) (es : List (String × Json)) {k : String}
    {es' : List (String × Json)} (hlast : k ∉ es'.map Prod.fst) :
    ∃ pre post, k ∉ post.map Prod.fst ∧ ∀ w,
      collapseEntries done (es ++ (k, w) :: es') = pre ++ (k, w.collapse) :: post := by
  have hsorted : Sorted (collapseEntries done es) := sorted_collapseEntries h
  obtain ⟨pre, post, hpost, hinsert⟩ := insertEntry_split (k := k) hsorted
  obtain ⟨pre', post', hpost', hrest⟩ := collapseEntries_other hpost hlast
  refine ⟨pre', post', hpost', fun w => ?_⟩
  rw [collapseEntries_append, collapseEntries, hinsert, hrest]

end Collapse

/-- A collapsed value stays as it is. -/
theorem collapse_collapse (j : Json) : j.collapse.collapse = j.collapse := by
  induction j using Json.induction with
  | scalar j h => rw [h]; exact h
  | arr js ih =>
    rw [collapse, collapse, collapseItems_eq, collapseItems_eq, List.map_map]
    exact congrArg arr (List.map_congr_left ih)
  | obj es ih =>
    have hsorted : Sorted (collapseEntries [] es) := sorted_collapseEntries .nil
    rw [collapse, collapse, collapseEntries_of_sorted hsorted fun e he => ?_, List.nil_append]
    rcases mem_collapseEntries he with he | ⟨e', he', -, heq⟩
    · simp at he
    · rw [heq, ih e' he']

/-! ### Depths -/

lemma depth_le_of_mem_items {j : Json} {js : List Json} (h : j ∈ js) : j.depth ≤ depthItems js := by
  induction js with
  | nil => simp at h
  | cons i js ih =>
    rw [depthItems]
    rcases List.mem_cons.1 h with rfl | h
    · exact le_max_left ..
    · exact (ih h).trans (le_max_right ..)

lemma depth_le_of_mem_entries {e : String × Json} {es : List (String × Json)} (h : e ∈ es) :
    e.2.depth ≤ depthEntries es := by
  induction es with
  | nil => simp at h
  | cons f es ih =>
    rw [depthEntries]
    rcases List.mem_cons.1 h with rfl | h
    · exact le_max_left ..
    · exact (ih h).trans (le_max_right ..)

lemma depthItems_le {n : Nat} {js : List Json} (h : ∀ j ∈ js, j.depth ≤ n) : depthItems js ≤ n := by
  induction js with
  | nil => exact Nat.zero_le n
  | cons j js ih => exact max_le (h j (by simp)) (ih fun i hi => h i (by simp [hi]))

lemma depthEntries_le {n : Nat} {es : List (String × Json)} (h : ∀ e ∈ es, e.2.depth ≤ n) :
    depthEntries es ≤ n := by
  induction es with
  | nil => exact Nat.zero_le n
  | cons e es ih => exact max_le (h e (by simp)) (ih fun f hf => h f (by simp [hf]))

theorem depth_collapse_le (j : Json) : j.collapse.depth ≤ j.depth := by
  induction j using Json.induction with
  | scalar j h => rw [h]
  | arr js ih =>
    rw [collapse, depth, depth, collapseItems_eq]
    refine Nat.succ_le_succ (depthItems_le fun i hi => ?_)
    obtain ⟨j, hj, rfl⟩ := List.mem_map.1 hi
    exact (ih j hj).trans (depth_le_of_mem_items hj)
  | obj es ih =>
    rw [collapse, depth, depth]
    refine Nat.succ_le_succ (depthEntries_le fun e he => ?_)
    rcases mem_collapseEntries he with he | ⟨e', he', -, heq⟩
    · simp at he
    · rw [heq]
      exact (ih e' he').trans (depth_le_of_mem_entries he')

/-! ### Changes -/

/-- A change at a path is a change at the same path of the collapsed value. -/
theorem Edit.collapse {v : Json} {path : List Part} {x x' : LawfulSource.Raw FromValue}
    (h : Edit v path x x') :
    Edit (m := FromValue) v.collapse path (Json.collapse x) (Json.collapse x') := by
  induction h with
  | here hv =>
    obtain rfl := Except.ok.inj hv
    exact .here rfl
  | @item part path x x' y y' xs ys hx hx' hi _ ih =>
    obtain rfl : x = arr (xs ++ y :: ys) := hx
    obtain rfl : x' = arr (xs ++ y' :: ys) := hx'
    simp only [Json.collapse, collapseItems_eq, List.map_append, List.map_cons]
    exact .item rfl rfl ((List.length_map _).trans hi) ih
  | @entry path x x' y y' es es' k i hx hx' hlast _ ih =>
    obtain rfl : x = obj (es ++ (k, y) :: es') := hx
    obtain rfl : x' = obj (es ++ (k, y') :: es') := hx'
    have hsorted : Sorted [] := .nil
    obtain ⟨pre, post, hpost, hcollapse⟩ := hsorted.collapseEntries_last es hlast
    simp only [Json.collapse, hcollapse]
    exact .entry rfl rfl hpost ih

lemma exists_last_of_key {α : Type} {k : String} {es : List (String × α)}
    (h : k ∈ es.map Prod.fst) :
    ∃ es₁ v es₂, es = es₁ ++ (k, v) :: es₂ ∧ k ∉ es₂.map Prod.fst := by
  induction es with
  | nil => simp at h
  | cons e es ih =>
    by_cases hmem : k ∈ es.map Prod.fst
    · obtain ⟨es₁, v, es₂, rfl, hlast⟩ := ih hmem
      exact ⟨e :: es₁, v, es₂, rfl, hlast⟩
    · obtain rfl : k = e.1 := by simpa [hmem] using h
      exact ⟨[], e.2, es, rfl, hmem⟩

/-- A collapsed value has the parts of the value alone. -/
theorem Has.of_collapse {path : List Part} {x : LawfulSource.Raw FromValue} {j : Json}
    (h : Has path x) (hx : x = j.collapse) : Has (m := FromValue) path j := by
  induction h generalizing j with
  | here => exact .here
  | @item part path x y xs ys hitems hi _ ih =>
    obtain rfl : x = arr (xs ++ y :: ys) := hitems
    cases j with
    | arr js =>
      have hjs : js.map collapse = xs ++ y :: ys := by
        rw [← collapseItems_eq]
        exact (arr.inj hx).symm
      obtain ⟨js₁, js', rfl, rfl, hjs'⟩ := List.map_eq_append_iff.1 hjs
      obtain ⟨i, js₂, rfl, rfl, -⟩ := List.map_eq_cons_iff.1 hjs'
      exact .item rfl ((List.length_map _).symm.trans hi) (ih rfl)
    | _ => simp [collapse] at hx
  | @entry path x y es es' k i hentries hlast _ ih =>
    obtain rfl : x = obj (es ++ (k, y) :: es') := hentries
    cases j with
    | obj vs =>
      have hvs : es ++ (k, y) :: es' = collapseEntries [] vs := obj.inj hx
      have hsorted : Sorted [] := .nil
      have hy : (k, y) ∈ collapseEntries [] vs := by
        rw [← hvs]
        simp
      have hmem : k ∈ vs.map Prod.fst := by
        rcases mem_collapseEntries hy with hnil | ⟨e, he, rfl, -⟩
        · simp at hnil
        · exact List.mem_map_of_mem he
      obtain ⟨vs₁, w, vs₂, rfl, hlast'⟩ := exists_last_of_key hmem
      obtain ⟨pre, post, -, hcollapse⟩ := hsorted.collapseEntries_last vs₁ hlast'
      have hw : y = w.collapse := (sorted_collapseEntries hsorted).unique hy (by simp [hcollapse w])
      exact .entry rfl hlast' (ih hw)
    | _ => simp [collapse] at hx

end ZodGraph.Json
