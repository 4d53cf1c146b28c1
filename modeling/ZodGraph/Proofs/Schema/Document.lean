import Mathlib.Data.List.Basic
import Mathlib.Tactic
import ZodGraph.Proofs.Schema.Unambiguous
import ZodGraph.Schema.Assembly

/-!
The text of a module determines its definitions. No string in it, be it the name of a field, an
enum value, a literal or the package data in the comment, can add, hide or change one.
-/

namespace ZodGraph.Schema

/-- A definition whose own name is plain too. -/
def Definition.plain (d : Definition) : Bool := plainName d.name && d.expr.plain

lemma Definition.toList_text (d : Definition) : d.text.toList =
    "export const ".toList ++ ((identifier d.name).toList ++
      (" = ".toList ++ ((d.expr.text 0).toList ++ ";\n".toList))) := by
  have htext : d.text =
      "export const " ++ identifier d.name ++ " = " ++ d.expr.text 0 ++ ";\n" := rfl
  simp only [htext, String.toList_append, List.append_assoc]

lemma definition_inj {d d' : Definition} {s s' : List Char} (hd : d.plain = true)
    (hd' : d'.plain = true) (h : d.text.toList ++ s = d'.text.toList ++ s') : d = d' ∧ s = s' := by
  obtain ⟨name, expr⟩ := d
  obtain ⟨name', expr'⟩ := d'
  simp only [Definition.plain, Bool.and_eq_true] at hd hd'
  simp only [Definition.toList_text, List.append_assoc] at h
  obtain ⟨rfl, hexpr⟩ := identifier_inj hd.1 hd'.1 (endsName_append (by decide))
    (endsName_append (by decide)) (List.append_cancel_left h)
  obtain ⟨rfl, hend⟩ := expr.legible hd.2 hd'.2 rfl rfl (List.append_cancel_left hexpr)
  exact ⟨rfl, List.append_cancel_left hend⟩

/-- The definitions of a module, each after a line feed. -/
def definitionsText (ds : List Definition) : List Char := ds.flatMap fun d => '\n' :: d.text.toList

lemma definitionsText_inj {ds ds' : List Definition} (hd : ∀ d ∈ ds, d.plain = true)
    (hd' : ∀ d ∈ ds', d.plain = true) (h : definitionsText ds = definitionsText ds') :
    ds = ds' := by
  have hone : ∀ d ∈ ds, ∀ d' ∈ ds', ∀ s s', True → True →
      '\n' :: d.text.toList ++ s = '\n' :: d'.text.toList ++ s' → d = d' ∧ s = s' := by
    intro d hmem d' hmem' s s' _ _ heq
    exact definition_inj (hd d hmem) (hd' d' hmem') (List.cons.inj heq).2
  have hlist : definitionsText ds ++ [] = definitionsText ds' ++ [] := by rw [h]
  exact (flatMap_inj (fun _ => True) hone (fun _ _ => trivial) trivial trivial (by simp) (by simp)
    hlist).1

/-! ### Metadata -/

lemma afterComment_line {label : String} (o : Option String) (r : List Char)
    (h : '*' ∉ label.toList) :
    afterComment ((metadataLine label o).toList ++ r) = afterComment r := by
  cases o with
  | none => simp [metadataLine]
  | some s =>
    have hstar : ∀ x, afterComment (" * ".toList ++ x) = afterComment x := fun x => by
      simp [afterComment_cons]
    simp only [metadataLine, String.toList_append, List.append_assoc, commentText,
      String.toList_ofList]
    rw [hstar, afterComment_append _ h, afterComment_append _ (by decide)]
    exact afterComment_guard _ _

lemma afterComment_metadata (m : Metadata) (r : List Char) :
    afterComment (m.text.toList ++ r) = '\n' :: r := by
  have hopen : ∀ x, afterComment ("/**\n".toList ++ x) = afterComment x := fun x => by
    simp [afterComment_cons]
  have hclose : afterComment (" */\n".toList ++ r) = '\n' :: r := by
    simp [afterComment_cons, afterComment_end]
  simp only [Metadata.text, String.toList_append, List.append_assoc]
  rw [hopen, afterComment_line _ _ (by decide), afterComment_line _ _ (by decide), hclose]

/-- Metadata in front of the definitions, with a line feed before it. -/
def metadataText (o : Option Metadata) : List Char :=
  o.toList.flatMap fun m => '\n' :: m.text.toList

/-- A comment is not taken for a definition. -/
lemma comment_ne_definitions (m : Metadata) (r : List Char) (ds : List Definition) :
    '\n' :: m.text.toList ++ r ≠ definitionsText ds := by
  cases ds with
  | nil => simp [definitionsText]
  | cons d ds => simp [definitionsText, Metadata.text, Definition.toList_text]

/-- The definitions do not depend on the comment before them. -/
lemma metadataText_skip {o o' : Option Metadata} {ds ds' : List Definition}
    (h : metadataText o ++ definitionsText ds = metadataText o' ++ definitionsText ds') :
    definitionsText ds = definitionsText ds' := by
  cases o with
  | none =>
    cases o' with
    | none => simpa [metadataText] using h
    | some m' =>
      exact absurd (by simpa [metadataText] using h.symm) (comment_ne_definitions m' _ ds)
  | some m =>
    cases o' with
    | none => exact absurd (by simpa [metadataText] using h) (comment_ne_definitions m _ ds')
    | some m' =>
      have hcomment :
          m.text.toList ++ definitionsText ds = m'.text.toList ++ definitionsText ds' := by
        simpa [metadataText] using h
      have hafter := congrArg afterComment hcomment
      rw [afterComment_metadata, afterComment_metadata] at hafter
      exact (List.cons.inj hafter).2

lemma toList_moduleText {m : Module} (h : m.imports = [zodImport]) :
    m.text.toList =
      zodImport.text.toList ++ (metadataText m.metadata ++ definitionsText m.definitions) := by
  have hjoin : String.join (m.imports.map Import.text) = zodImport.text := by
    rw [h]
    rfl
  have hsections : m.sections = zodImport.text ::
      (m.metadata.toList.map Metadata.text ++ m.definitions.map Definition.text) := by
    rw [Module.sections, hjoin]
    rfl
  rw [Module.text, hsections, toList_intercalate_cons, List.flatMap_append, List.flatMap_map,
    List.flatMap_map]
  rfl

/-- **A module is told by its text**: modules that import the validator library, name their
definitions plainly and hold no floating-point literal have the same definitions, in the same
order, if they have the same text. -/
theorem definitions_eq_of_text_eq {a b : Module} (ha : a.imports = [zodImport])
    (hb : b.imports = [zodImport]) (hda : ∀ d ∈ a.definitions, d.plain = true)
    (hdb : ∀ d ∈ b.definitions, d.plain = true) (h : a.text = b.text) :
    a.definitions = b.definitions := by
  have hlist := congrArg String.toList h
  rw [toList_moduleText ha, toList_moduleText hb] at hlist
  exact definitionsText_inj hda hdb (metadataText_skip (List.append_cancel_left hlist))

/-- A field name and enum values that look like source text. -/
def hostile : Definition :=
  ⟨"Tag", .object [⟨"id: z.string(),\n  x", .enum ["\"]);\n", "*/"], true⟩] none⟩

def hostileEnum : Module := ⟨[zodImport], some ⟨some "p */", some "1"⟩, [hostile], []⟩

def hostileModel : Module := ⟨[zodImport], some ⟨some "p */\n * Version: 1", none⟩, [], [hostile]⟩

/-- The modules differ in their package data and in what they call a model, and have one text. -/
theorem definitions_eq_of_text_eq_hostile :
    hostileEnum.text = hostileModel.text ∧ hostileEnum.metadata ≠ hostileModel.metadata ∧
      hostileEnum.definitions = hostileModel.definitions := by
  have hcomment : metadataText hostileEnum.metadata = metadataText hostileModel.metadata := by
    decide
  have htext : hostileEnum.text = hostileModel.text := by
    rw [← String.toList_inj, toList_moduleText rfl, toList_moduleText rfl, hcomment]
    rfl
  exact ⟨htext, by decide, definitions_eq_of_text_eq rfl rfl (by decide) (by decide) htext⟩

end ZodGraph.Schema
