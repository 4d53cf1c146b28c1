import ZodGraph.Emission
import ZodGraph.Proofs.Store

/-!
Emission passes over a store that may refuse a write. A pass applies a prefix of the writes it
plans: all of them, or those before the refused one. After any number of passes a path finds the
last write that was applied to it.
-/

namespace ZodGraph

open Schema (identifier)

/-! ### What is planned -/

namespace Namespace

variable {root : Namespace} {o : Options}

/-- There is a document unless nothing is selected. -/
lemma exists_document (h : ¬ root.selection.isEmpty) :
    ∃ document, root.document o = some document := by
  unfold document
  rw [if_neg h]
  exact ⟨_, rfl⟩

lemma files_of_isEmpty (h : root.selection.isEmpty) : root.files o = [] := by
  unfold files
  rw [if_pos h]

/-- The files of a graph: the document, and what a package adds. -/
lemma files_of_document {document : String} (h : root.document o = some document) :
    ∃ schemas, root.files o = ⟨o.file, document⟩ ::
      (o.package?.map fun p => p.files o.file schemas).getD [] := by
  have hempty : ¬ root.selection.isEmpty := by
    intro hempty
    rw [Namespace.document, if_pos hempty] at h
    simp at h
  rw [Namespace.document, if_neg hempty] at h
  obtain rfl := Option.some.inj h
  refine ⟨(root.selection.module o).definitions.map fun d => identifier d.name, ?_⟩
  unfold files
  rw [if_neg hempty]
  rcases o.package? with _ | p <;> rfl

end Namespace

/-- The names of the files that a package adds. -/
def packageNames : List String := ["package.json", "README.md", "tsconfig.json", ".npmignore"]

/-- A package adds its files once both its name and its version are set. -/
lemma Options.paths_package (o : Options) (schemas : List String) :
    ((o.package?.map fun p => p.files o.file schemas).getD []).map File.path =
      if o.packageName.isSome ∧ o.packageVersion.isSome then packageNames else [] := by
  unfold Options.package?
  rcases o.packageName with _ | name <;> rcases o.packageVersion with _ | version <;> simp
  rfl

namespace Emission

/-! ### Writes that may be refused -/

/-- The writes that are applied, given the one that is refused. -/
def accepted (refuse : Option Nat) (files : List File) : List File :=
  match refuse with
  | none => files
  | some k => files.take k

/-- The writes that are tried. -/
def attempted (refuse : Option Nat) (files : List File) : List File :=
  match refuse with
  | none => files
  | some k => files.take (k + 1)

def failure? (refuse : Option Nat) (files : List File) : Option Failure :=
  refuse.bind fun k => files[k]?.map fun f => ⟨f.path, .readOnly⟩

lemma accepted_nil (refuse : Option Nat) : accepted refuse [] = [] := by
  rcases refuse with _ | k <;> simp [accepted]

lemma attempted_nil (refuse : Option Nat) : attempted refuse [] = [] := by
  rcases refuse with _ | k <;> simp [attempted]

/-- Writing in a state: the first file is refused, or the rest is written after it. -/
lemma writeAll_cons {σ : Type} (write : File → StateM σ (Option FileFault)) (f : File)
    (files : List File) (st : σ) :
    writeAll write (f :: files) st =
      ((write f st).1.elim
        { (writeAll write files (write f st).2).1 with
          written := f :: (writeAll write files (write f st).2).1.written }
        fun cause => { failure := some ⟨f.path, cause⟩ },
      (write f st).1.elim (writeAll write files (write f st).2).2 fun _ => (write f st).2) := by
  rw [writeAll]
  rcases h : write f st with ⟨_ | cause, st'⟩ <;> simp only [bind, StateT.bind, h] <;> rfl

lemma writeAll_guarded (files : List File) (s : Store) (refuse : Option Nat) :
    (writeAll Guarded.write files ⟨s, refuse⟩).1 =
        { written := accepted refuse files, failure := failure? refuse files } ∧
      (writeAll Guarded.write files ⟨s, refuse⟩).2.store =
        s.writeFiles (accepted refuse files) := by
  induction files generalizing s refuse with
  | nil =>
    rw [accepted_nil]
    rcases refuse with _ | k <;> exact ⟨rfl, rfl⟩
  | cons f files ih =>
    rcases refuse with _ | _ | k
    · obtain ⟨hreport, hstore⟩ := ih (s.write f.path f.contents) none
      rw [writeAll_cons]
      simp only [Guarded.write, Option.elim_none]
      rw [hreport]
      exact ⟨rfl, hstore⟩
    · -- this write is refused
      exact ⟨rfl, rfl⟩
    · obtain ⟨hreport, hstore⟩ := ih (s.write f.path f.contents) (some k)
      rw [writeAll_cons]
      simp only [Guarded.write, Option.elim_none]
      rw [hreport]
      exact ⟨rfl, hstore⟩

/-- A write to a store that also notes what is tried. -/
def noted (f : File) : StateM (Guarded × List File) (Option FileFault) := fun st =>
  ((Guarded.write f st.1).1, ((Guarded.write f st.1).2, st.2 ++ [f]))

/-- Notes change nothing else, and after a refusal nothing more is tried. -/
lemma writeAll_noted (files : List File) (g : Guarded) (log : List File) :
    writeAll noted files (g, log) = ((writeAll Guarded.write files g).1,
      ((writeAll Guarded.write files g).2, log ++ attempted g.refuse files)) := by
  induction files generalizing g log with
  | nil =>
    rw [attempted_nil, List.append_nil]
    rfl
  | cons f files ih =>
    obtain ⟨s, refuse⟩ := g
    rcases refuse with _ | _ | k <;> rw [writeAll_cons, writeAll_cons] <;>
      simp only [noted, Guarded.write]
    · rw [ih]
      simp [attempted]
    · simp [attempted]
    · rw [ih]
      simp [attempted]

lemma emitToStore_eq (root : Namespace) (o : Options) (host : String) (refuse : Option Nat)
    (s : Store) :
    emitToStore root o host refuse s =
      ({ written := accepted refuse (root.plan o host)
         failure := failure? refuse (root.plan o host) },
        s.writeFiles (accepted refuse (root.plan o host))) := by
  obtain ⟨hreport, hstore⟩ := writeAll_guarded (root.plan o host) s refuse
  exact Prod.ext hreport hstore

/-! ### Passes -/

/-- What is written, where, and which write the store refuses, if it comes to it. -/
structure Pass where
  root : Namespace
  options : Options := {}
  host : String := ""
  refuse : Option Nat := none

namespace Pass

/-- The directory that is set for the files, or else that of the host. -/
def directory (p : Pass) : String := p.options.outputDir.getD p.host

/-- The file that is set for the module, or else `schemas.ts`. -/
def file (p : Pass) : String := p.options.outputFile.getD "schemas.ts"

def plan (p : Pass) : List File := p.root.plan p.options p.host

def applied (p : Pass) : List File := accepted p.refuse p.plan

def run (p : Pass) (s : Store) : Report × Store := emitToStore p.root p.options p.host p.refuse s

/-- The pass over a store that notes the writes that are tried. -/
def observe (p : Pass) (s : Store) : (Report × Store) × List File :=
  let (report, g, log) := emit noted p.root p.options p.host (⟨s, p.refuse⟩, [])
  ((report, g.store), log)

variable (p : Pass) (s : Store)

lemma run_eq : p.run s = ({ written := p.applied, failure := failure? p.refuse p.plan },
    s.writeFiles p.applied) :=
  emitToStore_eq p.root p.options p.host p.refuse s

lemma observe_eq : p.observe s = (p.run s, attempted p.refuse p.plan) := by
  unfold observe emit
  rw [writeAll_noted]
  rfl

/-- The files of the graph are planned below the directory. -/
lemma plan_eq : p.plan = (p.root.files p.options).map fun f =>
    { f with path := Path.join p.directory f.path } := rfl

lemma options_file : p.options.file = p.file := rfl

variable {p}

lemma plan_of_isEmpty (h : p.root.selection.isEmpty) : p.plan = [] := by
  rw [plan_eq, Namespace.files_of_isEmpty h, List.map_nil]

lemma head_plan {document : String} (h : p.root.document p.options = some document) :
    p.plan.head? = some ⟨Path.join p.directory p.file, document⟩ := by
  obtain ⟨schemas, hfiles⟩ := Namespace.files_of_document h
  rw [plan_eq, hfiles, options_file, List.map_cons, List.head?_cons]

lemma paths_plan {document : String} (h : p.root.document p.options = some document) :
    p.plan.map File.path = (p.file ::
      if p.options.packageName.isSome ∧ p.options.packageVersion.isSome then packageNames
      else []).map (Path.join p.directory) := by
  obtain ⟨schemas, hfiles⟩ := Namespace.files_of_document h
  rw [← p.options.paths_package schemas, plan_eq, hfiles, options_file]
  simp [Function.comp_def]

lemma outcome_of_plan_nil (h : p.plan = []) :
    (p.run s).1.outcome = .ok .nothing ∧ (p.run s).2 = s := by
  have happlied : p.applied = [] := by rw [applied, h, accepted_nil]
  have hfailure : failure? p.refuse p.plan = none := by
    rw [h]
    rcases hrefuse : p.refuse with _ | k <;> simp [failure?]
  rw [run_eq, happlied, hfailure]
  exact ⟨rfl, rfl⟩

lemma outcome_of_refused {k : Nat} {f : File} (hrefuse : p.refuse = some k)
    (hf : p.plan[k]? = some f) :
    (p.run s).1.outcome = .error ⟨f.path, .readOnly⟩ ∧ (p.run s).2 = s.writeFiles (p.plan.take k) ∧
      p.observe s = (p.run s, p.plan.take (k + 1)) := by
  have hfailure : failure? p.refuse p.plan = some ⟨f.path, .readOnly⟩ := by
    simp [failure?, hrefuse, hf]
  rw [observe_eq, run_eq, hfailure, applied, hrefuse]
  exact ⟨rfl, rfl, rfl⟩

lemma accepted_of_not_refused (h : ∀ k, p.refuse = some k → p.plan.length ≤ k) :
    p.applied = p.plan ∧ attempted p.refuse p.plan = p.plan ∧ failure? p.refuse p.plan = none := by
  unfold applied
  rcases hrefuse : p.refuse with _ | k
  · exact ⟨rfl, rfl, rfl⟩
  · have hk : p.plan.length ≤ k := h k hrefuse
    have hnone : p.plan[k]? = none := List.getElem?_eq_none hk
    refine ⟨List.take_of_length_le hk, List.take_of_length_le (by omega), ?_⟩
    simp [failure?, hnone]

lemma outcome_of_not_refused (hplan : p.plan ≠ [])
    (h : ∀ k, p.refuse = some k → p.plan.length ≤ k) :
    (p.run s).1.outcome = .ok (.written (p.plan.map File.path)) ∧
      (p.run s).2 = s.writeFiles p.plan ∧ p.observe s = (p.run s, p.plan) := by
  obtain ⟨happlied, hattempted, hfailure⟩ := accepted_of_not_refused h
  rw [observe_eq, run_eq, hfailure, happlied, hattempted]
  refine ⟨?_, rfl, rfl⟩
  simp [Report.outcome, hplan]

end Pass

/-- Passes over one store: what each of them reports, and the store they leave. -/
def runAll (s : Store) : List Pass → List Report × Store
  | [] => ([], s)
  | p :: ps => ((p.run s).1 :: (runAll (p.run s).2 ps).1, (runAll (p.run s).2 ps).2)

/-- Passes do not see each other, and their writes add up. -/
lemma runAll_eq (s : Store) (ps : List Pass) :
    runAll s ps = (ps.map fun p => (p.run s).1, s.writeFiles (ps.flatMap Pass.applied)) := by
  induction ps generalizing s with
  | nil => rfl
  | cons p ps ih =>
    have hreports : (ps.map fun q => (q.run (p.run s).2).1) = ps.map fun q => (q.run s).1 := by
      refine List.map_congr_left fun q _ => ?_
      rw [q.run_eq, q.run_eq]
    rw [runAll, ih, hreports, p.run_eq, List.flatMap_cons, Store.writeFiles_append, List.map_cons,
      p.run_eq]

/-- **A pass applies a prefix of its plan.** Where nothing is selected, it reports so and leaves
the store as it is. Otherwise it plans the document under its file and, if a package is named in
full, the files of the package, all below the directory; a refused write is reported with its
path, those before it are applied and none after it is tried; without a refusal all are applied.
After any passes over one store, a path finds the last write applied to it, or what was there at
the start. -/
theorem passes_apply_prefixes :
    (∀ (p : Pass) (s : Store), p.root.selection.isEmpty →
      (p.run s).1.outcome = .ok .nothing ∧ (p.run s).2 = s) ∧
    (∀ (p : Pass) (s : Store), ¬ p.root.selection.isEmpty →
      (∃ document, p.root.document p.options = some document ∧
        p.plan.head? = some ⟨Path.join p.directory p.file, document⟩) ∧
      p.plan.map File.path = (p.file ::
        if p.options.packageName.isSome ∧ p.options.packageVersion.isSome then packageNames
        else []).map (Path.join p.directory) ∧
      (∀ k f, p.refuse = some k → p.plan[k]? = some f →
        (p.run s).1.outcome = .error ⟨f.path, .readOnly⟩ ∧
        (p.run s).2 = s.writeFiles (p.plan.take k) ∧
        p.observe s = (p.run s, p.plan.take (k + 1))) ∧
      ((∀ k, p.refuse = some k → p.plan.length ≤ k) →
        (p.run s).1.outcome = .ok (.written (p.plan.map File.path)) ∧
        (p.run s).2 = s.writeFiles p.plan ∧ p.observe s = (p.run s, p.plan))) ∧
    ∀ (s : Store) (ps : List Pass), (runAll s ps).1 = ps.map (fun p => (p.run s).1) ∧
      ∀ path, (runAll s ps).2.get? path =
        (lastContents path (ps.flatMap Pass.applied)).or (s.get? path) := by
  refine ⟨fun p s h => ?_, fun p s h => ?_, fun s ps => ?_⟩
  · exact p.outcome_of_plan_nil s (Pass.plan_of_isEmpty h)
  · obtain ⟨document, hdocument⟩ := Namespace.exists_document (o := p.options) h
    have hhead := Pass.head_plan hdocument
    have hplan : p.plan ≠ [] := by
      rintro hnil
      rw [hnil] at hhead
      simp at hhead
    exact ⟨⟨document, hdocument, hhead⟩, Pass.paths_plan hdocument,
      fun k f => p.outcome_of_refused s, p.outcome_of_not_refused s hplan⟩
  · rw [runAll_eq]
    exact ⟨rfl, fun path => s.get?_writeFiles _ path⟩

/-- A pass with a package, over a store that takes the module and nothing more. -/
def cutShort : Pass where
  root := { name := "", models := [{ name := "Item" }] }
  options := { outputDir := some "gen", outputFile := some "items.ts", packageName := some "items",
               packageVersion := some "1.0.0" }
  host := "out"
  refuse := some 1

/-- An absolute path leaves the directory out. -/
def elsewhere : Pass where
  root := { name := "", models := [{ name := "Part" }] }
  options := { outputDir := some "gen", outputFile := some "/srv/parts.ts" }
  host := "out"

/-- The module of the first pass again, under another spelling of its path. There is no write for
the store to refuse. -/
def again : Pass where
  root := { name := "", models := [{ name := "Item" }, { name := "Part" }] }
  options := { outputFile := some "./items.ts" }
  host := "gen"
  refuse := some 7

def idle : Pass where
  root := { name := "" }

lemma plan_eq_singleton {p : Pass} {f : File} {path : String} (hhead : p.plan.head? = some f)
    (hpaths : p.plan.map File.path = [path]) : p.plan = [f] := by
  obtain ⟨g, hplan, rfl⟩ := List.map_eq_singleton_iff.1 hpaths
  rw [hplan] at hhead
  rw [hplan, Option.some.inj hhead]

theorem passes_apply_prefixes_cutShort :
    idle.root.selection.isEmpty ∧ ¬ cutShort.root.selection.isEmpty ∧
    ¬ elsewhere.root.selection.isEmpty ∧ ¬ again.root.selection.isEmpty ∧
    (∃ f, cutShort.refuse = some 1 ∧ cutShort.plan[1]? = some f) ∧
    again.refuse = some 7 ∧ again.plan.length ≤ 7 ∧
    cutShort.plan.map File.path = ["gen/items.ts", "gen/package.json", "gen/README.md",
      "gen/tsconfig.json", "gen/.npmignore"] ∧
    ∃ s : Store, s.get? "gen/old.ts" = some "old" ∧
      cutShort.observe s = (cutShort.run s, cutShort.plan.take 2) ∧
      (runAll s [cutShort, elsewhere, again, idle]).1.map Report.outcome =
        [.error ⟨"gen/package.json", .readOnly⟩, .ok (.written ["/srv/parts.ts"]),
          .ok (.written ["gen/./items.ts"]), .ok .nothing] ∧
      (runAll s [cutShort, elsewhere]).2.get? "gen/items.ts" =
        cutShort.root.document cutShort.options ∧
      (runAll s [cutShort, elsewhere, again, idle]).2.get? "gen/items.ts" =
        again.root.document again.options ∧
      (runAll s [cutShort, elsewhere, again, idle]).2.get? "/srv/parts.ts" =
        elsewhere.root.document elsewhere.options ∧
      (runAll s [cutShort, elsewhere, again, idle]).2.get? "gen/package.json" = none ∧
      (runAll s [cutShort, elsewhere, again, idle]).2.get? "gen/old.ts" = some "old" := by
  obtain ⟨hnothing, hplanned, hafter⟩ := passes_apply_prefixes
  have hidle : idle.root.selection.isEmpty := by decide
  have hcut : ¬ cutShort.root.selection.isEmpty := by decide
  have helse : ¬ elsewhere.root.selection.isEmpty := by decide
  have hagain : ¬ again.root.selection.isEmpty := by decide
  let s : Store := ({} : Store).write "gen/old.ts" "old"
  have hold (path : String) :
      s.get? path = if Path.Same "gen/old.ts" path then some "old" else none :=
    Store.get?_write {} "gen/old.ts" "old" path
  obtain ⟨⟨items, hitems, hcutHead⟩, hcutPaths, hrefused, -⟩ := hplanned cutShort s hcut
  obtain ⟨⟨parts, hparts, helseHead⟩, helsePaths, -, helseAll⟩ := hplanned elsewhere s helse
  obtain ⟨⟨both, hboth, hagainHead⟩, hagainPaths, -, hagainAll⟩ := hplanned again s hagain
  rw [show Path.join cutShort.directory cutShort.file = "gen/items.ts" by decide] at hcutHead
  rw [show Path.join elsewhere.directory elsewhere.file = "/srv/parts.ts" by decide] at helseHead
  rw [show Path.join again.directory again.file = "gen/./items.ts" by decide] at hagainHead
  replace hcutPaths : cutShort.plan.map File.path = ["gen/items.ts", "gen/package.json",
    "gen/README.md", "gen/tsconfig.json", "gen/.npmignore"] := hcutPaths.trans (by decide)
  have helsePlan := plan_eq_singleton helseHead helsePaths
  have hagainPlan := plan_eq_singleton hagainHead hagainPaths
  -- the first pass is refused its second write
  have hsecond : cutShort.plan[1]?.map File.path = some "gen/package.json" := by
    rw [← List.getElem?_map, hcutPaths]
    rfl
  obtain ⟨f, hf, hfpath⟩ := Option.map_eq_some_iff.1 hsecond
  obtain ⟨hcutOutcome, -, hobserve⟩ := hrefused 1 f rfl hf
  -- the two others are refused nothing
  have hseven : ∀ k, again.refuse = some k → again.plan.length ≤ k := by
    intro k hk
    obtain rfl : 7 = k := Option.some.inj hk
    simp [hagainPlan]
  have hnever : ∀ k, elsewhere.refuse = some k → elsewhere.plan.length ≤ k := by
    intro k hk
    cases hk
  obtain ⟨helseOutcome, -, -⟩ := helseAll hnever
  obtain ⟨hagainOutcome, -, -⟩ := hagainAll hseven
  obtain ⟨hidleOutcome, -⟩ := hnothing idle s hidle
  rw [hfpath] at hcutOutcome
  rw [helsePlan] at helseOutcome
  rw [hagainPlan] at hagainOutcome
  -- what each of them writes
  have hcutWrites : cutShort.applied = [⟨"gen/items.ts", items⟩] := by
    have htake : cutShort.applied = cutShort.plan.take 1 := rfl
    rw [htake, List.take_one, hcutHead]
    rfl
  have helseWrites : elsewhere.applied = [⟨"/srv/parts.ts", parts⟩] :=
    (Pass.accepted_of_not_refused hnever).1.trans helsePlan
  have hagainWrites : again.applied = [⟨"gen/./items.ts", both⟩] :=
    (Pass.accepted_of_not_refused hseven).1.trans hagainPlan
  have hidleWrites : idle.applied = [] := by
    rw [Pass.applied, Pass.plan_of_isEmpty hidle, accepted_nil]
  have hreports := (hafter s [cutShort, elsewhere, again, idle]).1
  have hfirst := (hafter s [cutShort, elsewhere]).2
  have hall := (hafter s [cutShort, elsewhere, again, idle]).2
  simp only [List.flatMap_cons, List.flatMap_nil, hcutWrites, helseWrites, hagainWrites,
    hidleWrites, List.append_nil, List.cons_append, List.nil_append] at hfirst hall
  refine ⟨hidle, hcut, helse, hagain, ⟨f, rfl, hf⟩, rfl, hseven 7 rfl, hcutPaths, s, hold _,
    hobserve, ?_, ?_, ?_, ?_, ?_, ?_⟩
  · rw [hreports]
    simp only [List.map_cons, List.map_nil, hcutOutcome, helseOutcome, hagainOutcome,
      hidleOutcome]
  · simp +decide [hfirst, hitems, lastContents_cons]
  · simp +decide [hall, hboth, lastContents_cons]
  · simp +decide [hall, hparts, lastContents_cons]
  · simp +decide [hall, hold, lastContents_cons]
  · simp +decide [hall, hold, lastContents_cons]

end Emission

end ZodGraph
