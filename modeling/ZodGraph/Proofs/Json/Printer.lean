import ZodGraph.Json.Printer
import ZodGraph.Proofs.Json.Replace
import ZodGraph.Proofs.Json.Grammar

/-!
Indented text stands for the value it was written from, and is read as that value. This is said of
values without numbers.
-/

namespace ZodGraph.Json

/-! ### Strings -/

/-- Control characters are written in hexadecimal digits that are read as their code. -/
lemma hexUnit?_hex4 : ∀ n < 32,
    hex4 n = ['0', '0', Nat.digitChar (n / 16), Nat.digitChar (n % 16)] ∧
    hexUnit? '0' '0' (Nat.digitChar (n / 16)) (Nat.digitChar (n % 16)) = some n := by
  decide

lemma Quoted.escapeChar {t s : List Char} (h : Quoted t s) (c : Char) :
    Quoted (Json.escapeChar c ++ t) (c :: s) := by
  unfold Json.escapeChar
  split
  iterate 7 exact .escape rfl h
  · next hquote hbackslash _ _ _ _ _ =>
    split_ifs with hcontrol
    · obtain ⟨htext, hunit⟩ := hexUnit?_hex4 c.toNat hcontrol
      have hhigh : isHighSurrogate c.toNat = false := by
        simp only [isHighSurrogate, Bool.and_eq_false_iff, decide_eq_false_iff_not]
        omega
      have hlow : isLowSurrogate c.toNat = false := by
        simp only [isLowSurrogate, Bool.and_eq_false_iff, decide_eq_false_iff_not]
        omega
      have hread := Quoted.unit hunit hhigh hlow h
      rw [Char.ofNat_toNat] at hread
      rw [htext]
      exact hread
    · exact .plain hquote hbackslash (by omega) h

lemma quoted_escape (s : List Char) : Quoted (s.flatMap Json.escapeChar) s := by
  induction s with
  | nil => exact .nil
  | cons c s ih =>
    rw [List.flatMap_cons]
    exact ih.escapeChar c

lemma toList_printString (s : String) :
    (printString s).toList = '"' :: (s.toList.flatMap Json.escapeChar ++ ['"']) := by
  simp [printString]

lemma denotes_printString (s : String) : Denotes (printString s).toList (str s) := by
  have hstring := Denotes.string (quoted_escape s.toList)
  rwa [String.ofList_toList, ← toList_printString] at hstring

/-! ### Lists and objects -/

/-- No number is in the value, at any depth. -/
inductive Numberless : Json → Prop
  | null : Numberless null
  | bool (b : Bool) : Numberless (bool b)
  | str (s : String) : Numberless (str s)
  | arr {js : List Json} : (∀ j ∈ js, Numberless j) → Numberless (arr js)
  | obj {es : List (String × Json)} : (∀ e ∈ es, Numberless e.2) → Numberless (obj es)

attribute [simp] Numberless.null Numberless.bool Numberless.str

@[simp] lemma numberless_arr_iff {js : List Json} :
    Numberless (arr js) ↔ ∀ j ∈ js, Numberless j := by
  refine ⟨fun h => ?_, .arr⟩
  cases h with
  | arr hjs => exact hjs

@[simp] lemma numberless_obj_iff {es : List (String × Json)} :
    Numberless (obj es) ↔ ∀ e ∈ es, Numberless e.2 := by
  refine ⟨fun h => ?_, .obj⟩
  cases h with
  | obj hes => exact hes

lemma blanks_newline (level : Nat) : Blanks (newline level).toList := by
  intro c hc
  simp only [newline, String.toList_ofList, List.mem_cons, List.mem_replicate] at hc
  rcases hc with rfl | ⟨-, rfl⟩ <;> decide

lemma toList_prettyItems (level : Nat) (j : Json) (js : List Json) :
    (prettyItems level (j :: js)).toList = (newline level).toList ++ (j.pretty level).toList ++
      js.flatMap fun j => ',' :: ((newline level).toList ++ (j.pretty level).toList) := by
  induction js generalizing j with
  | nil => simp [prettyItems]
  | cons i js ih =>
    rw [prettyItems, String.toList_append, ih, List.flatMap_cons]
    · simp
    · simp

lemma toList_prettyEntries (level : Nat) (e : String × Json) (es : List (String × Json)) :
    (prettyEntries level (e :: es)).toList = (newline level).toList ++
      ((printString e.1).toList ++ ':' :: ' ' :: (e.2.pretty level).toList) ++
      es.flatMap fun e => ',' :: ((newline level).toList ++
        ((printString e.1).toList ++ ':' :: ' ' :: (e.2.pretty level).toList)) := by
  induction es generalizing e with
  | nil => simp [prettyEntries]
  | cons f es ih =>
    rw [prettyEntries, String.toList_append, ih, List.flatMap_cons]
    · simp
    · simp

section Parts

variable {level : Nat} {close : List Char}

lemma denotesItems_lines {js : List Json} (hjs : ∀ j ∈ js, Denotes (j.pretty level).toList j)
    (hclose : Blanks close) :
    DenotesItems false ((js.flatMap fun j => ',' :: ((newline level).toList ++
      (j.pretty level).toList)) ++ (close ++ [']'])) js := by
  induction js with
  | nil => exact .done hclose
  | cons j js ih =>
    obtain ⟨hj, hjs⟩ := List.forall_mem_cons.1 hjs
    have hmore := DenotesItems.more (.comma blanks_nil) (hj.blanks (blanks_newline level)) (ih hjs)
    simpa using hmore

lemma denotes_list {js : List Json} (hjs : ∀ l, ∀ j ∈ js, Denotes (j.pretty l).toList j) :
    Denotes ((arr js).pretty level).toList (arr js) := by
  cases js with
  | nil =>
    rw [pretty]
    exact .list (.done blanks_nil)
  | cons j js =>
    obtain ⟨hj, hrest⟩ := List.forall_mem_cons.1 (hjs (level + 1))
    have hitems := DenotesItems.more .first (hj.blanks (blanks_newline (level + 1)))
      (denotesItems_lines hrest (blanks_newline level))
    simpa [pretty, toList_prettyItems] using Denotes.list hitems

/-- An entry with what stands in front of it. -/
lemma DenotesEntries.entry {first : Bool} {p b s : List Char} {e : String × Json}
    {es : List (String × Json)} (hp : Lead first p) (hb : Blanks b)
    (he : Denotes (e.2.pretty level).toList e.2) (hes : DenotesEntries false s es) :
    DenotesEntries first (p ++ (b ++ ((printString e.1).toList ++ ':' :: ' ' ::
      ((e.2.pretty level).toList ++ s)))) (e :: es) := by
  have hspace : Blanks [' '] := by simp [Blanks, isBlank]
  have hmore := DenotesEntries.more hp hb (quoted_escape e.1.toList) blanks_nil
    (he.blanks hspace) hes
  simpa [toList_printString] using hmore

lemma denotesEntries_lines {es : List (String × Json)}
    (hes : ∀ e ∈ es, Denotes (e.2.pretty level).toList e.2) (hclose : Blanks close) :
    DenotesEntries false ((es.flatMap fun e => ',' :: ((newline level).toList ++
      ((printString e.1).toList ++ ':' :: ' ' :: (e.2.pretty level).toList))) ++
        (close ++ ['\x7d'])) es := by
  induction es with
  | nil => exact .done hclose
  | cons e es ih =>
    obtain ⟨he, hes⟩ := List.forall_mem_cons.1 hes
    simpa using DenotesEntries.entry (.comma blanks_nil) (blanks_newline level) he (ih hes)

lemma denotes_object {es : List (String × Json)}
    (hes : ∀ l, ∀ e ∈ es, Denotes (e.2.pretty l).toList e.2) :
    Denotes ((obj es).pretty level).toList (obj es) := by
  cases es with
  | nil =>
    rw [pretty]
    exact .object (.done blanks_nil)
  | cons e es =>
    obtain ⟨he, hrest⟩ := List.forall_mem_cons.1 (hes (level + 1))
    have hentries := DenotesEntries.entry .first (blanks_newline (level + 1)) he
      (denotesEntries_lines hrest (blanks_newline level))
    simpa [pretty, toList_prettyEntries] using Denotes.object hentries

end Parts

/-- **Writing is right**: indented text stands for the value it was written from. -/
theorem denotes_pretty {j : Json} (h : j.Numberless) (level : Nat) :
    Denotes (j.pretty level).toList j := by
  induction h generalizing level with
  | null => exact .null
  | bool b =>
    cases b with
    | false => exact .no
    | true => exact .yes
  | str s => exact denotes_printString s
  | arr _ ih => exact denotes_list fun l j hj => ih j hj l
  | obj _ ih => exact denotes_object fun l e he => ih e he l

/-- A text that stands for a value is read as the value, if it keeps the limit on open brackets. -/
lemma run_value_of_spells {text : String} {j : Json} (h : Spells text j)
    (hdepth : j.depth ≤ FromText.depthLimit) : FromText.run value text = .ok j := by
  obtain ⟨t, b, ht, hj, hb⟩ := h
  exact (run_eq_ok reader_value).2 ⟨t, b, ht, hb, hj.readsAs _ hdepth⟩

end ZodGraph.Json
