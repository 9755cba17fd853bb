import DesignCompiler.Proofs.Markup.BlankLines
import DesignCompiler.Proofs.Validation.Reports

/-!
# Findings behind blank lines

The rules read a structure and hardly look at lines: they copy those of tags, attributes, imports
and declarations into findings, and the rule on names compares lines with each other. So what they
find in a structure that is further down is what they find in the structure, with all lines
further down (`check_down`). With `Markup.ofText_blankLines` this holds of verdicts on a source
with blank lines in front of it (`validate_blankLines`).
-/

namespace DesignCompiler

open Markup (Structure Element Attribute Import Declaration Anomaly tagDown downResult)

/-- The finding, so many lines further down. -/
def Diagnostic.down (k : Nat) (d : Diagnostic) : Diagnostic :=
  { d with line := d.line.map (· + k) }

namespace Validation

/-- The report, so many lines further down. -/
def Report.down (k : Nat) (r : Report) : Report :=
  { r with diagnostics := r.diagnostics.map (Diagnostic.down k) }

/-- The verdict, with its findings so many lines further down. -/
def Verdict.down (k : Nat) (v : Verdict) : Verdict :=
  { v with
    errors := v.errors.map (Diagnostic.down k), warnings := v.warnings.map (Diagnostic.down k) }

/-! ## Structures further down -/

section Structures

variable (k : Nat) (s : Structure) (e : Element)

theorem importsFrom_down (module : String) :
    (s.down k).importsFrom module = (s.importsFrom module).map (Import.down k) :=
  List.filter_map

theorem isBound_down (name : String) : (s.down k).isBound name = s.isBound name := by
  show ((s.imports.map (Import.down k)).any _ ||
    (s.declarations.map (Declaration.down k)).any _) = _
  rw [List.any_map, List.any_map]
  rfl

theorem tagCount_down : (s.down k).tagCount = s.tagCount := by
  show ((s.elements.map (Element.down k)).filter _).length = _
  rw [List.filter_map, List.length_map]
  rfl

theorem resolveTag_down (library tag : String) :
    resolveTag (s.down k) library tag = resolveTag s library tag := by
  unfold resolveTag
  rw [importsFrom_down, List.flatMap_map]
  rfl

theorem attribute?_down (name : String) :
    (e.down k).attribute? name = (e.attribute? name).map (Attribute.down k) :=
  List.find?_map

theorem hasAttribute_down (name : String) :
    (e.down k).hasAttribute name = e.hasAttribute name := by
  unfold Element.hasAttribute
  rw [attribute?_down, Option.isSome_map]

theorem hasSpread_down : (e.down k).hasSpread = e.hasSpread :=
  List.any_map

end Structures

/-! ## Findings of the rules -/

section Findings

variable (k : Nat) (s : Structure) (e : Element) (context : Context)

theorem missingReactFindings_down :
    missingReactFindings (s.down k) = (missingReactFindings s).map (Diagnostic.down k) := by
  unfold missingReactFindings
  rw [importsFrom_down, List.isEmpty_map]
  split <;> rfl

theorem unboundFindings_down (reported : List String) (elements : List Element) :
    unboundFindings (s.down k) reported (elements.map (Element.down k)) =
      (unboundFindings s reported elements).map (Diagnostic.down k) := by
  induction elements generalizing reported with
  | nil => rfl
  | cons e rest ih =>
    have hroot : (e.down k).rootBinding = e.rootBinding := rfl
    rw [List.map_cons, unboundFindings, unboundFindings, isBound_down, hroot, ih, ih]
    split <;> rfl

theorem unusedFindings_down (used : List String) (i : Import) :
    unusedFindings used (i.down k) = (unusedFindings used i).map (Diagnostic.down k) := by
  unfold unusedFindings
  rw [List.map_map]
  rfl

theorem resolvesAlike_down (library : String) :
    ResolvesAlike library (Element.down k) s (s.down k) where
  elements := rfl
  tag e _ := resolveTag_down k s library e.tag
  ancestors _ _ := List.map_congr_left fun tag _ => resolveTag_down k s library tag

theorem orphanFindings_down (library component ancestor : String) :
    orphanFindings (s.down k) library component ancestor =
      (orphanFindings s library component ancestor).map (Diagnostic.down k) :=
  (resolvesAlike_down k s library).orphanFindings_eq (fun _ _ => rfl) component ancestor

theorem deprecatedFindings_down (library component advice : String) :
    deprecatedFindings (s.down k) library component advice =
      (deprecatedFindings s library component advice).map (Diagnostic.down k) :=
  (resolvesAlike_down k s library).deprecatedFindings_eq (fun _ _ => rfl) component advice

theorem valueFindings_down (entry : Catalog.Entry) (tag : String) (a : Attribute) :
    valueFindings entry tag (a.down k) = (valueFindings entry tag a).map (Diagnostic.down k) := by
  have hname : (a.down k).name = a.name := rfl
  have hvalue : (a.down k).value = a.value := rfl
  unfold valueFindings
  rw [hname, hvalue]
  cases entry.property? a.name with
  | none => rfl
  | some p =>
    simp only
    cases literalOf? a.value with
    | none => rfl
    | some value =>
      simp only
      split <;> rfl

theorem elementValueFindings_down :
    elementValueFindings context (s.down k) (e.down k) =
      (elementValueFindings context s e).map (Diagnostic.down k) := by
  have htag : (e.down k).tag = e.tag := rfl
  unfold elementValueFindings
  rw [resolveTag_down, htag]
  cases context.catalog.entry? (resolveTag s context.options.libraryModule e.tag) with
  | none => rfl
  | some entry =>
    show (e.attributes.map (Attribute.down k)).flatMap _ = _
    rw [List.flatMap_map, List.map_flatMap]
    exact List.flatMap_congr fun a _ => valueFindings_down k entry e.tag a

theorem imageFindings_down :
    imageFindings (e.down k) = (imageFindings e).map (Diagnostic.down k) := by
  have hshows : isImageLike (e.down k) = isImageLike e := by
    unfold isImageLike
    rw [hasAttribute_down]
    rfl
  unfold imageFindings
  rw [hshows, hasAttribute_down]
  split <;> rfl

theorem labelFindings_down :
    labelFindings (e.down k) = (labelFindings e).map (Diagnostic.down k) := by
  have hlabels : (e.down k).hasAttribute = e.hasAttribute := funext (hasAttribute_down k e)
  have htag : (e.down k).tag = e.tag := rfl
  have hcontent : (e.down k).hasContent = e.hasContent := rfl
  unfold labelFindings
  rw [hlabels, htag, hcontent]
  split <;> rfl

theorem handlerFindings_down (a : Attribute) :
    handlerFindings (e.down k) (a.down k) = (handlerFindings e a).map (Diagnostic.down k) := by
  have hvalue : (a.down k).value = a.value := rfl
  have hname : (a.down k).name = a.name := rfl
  unfold handlerFindings
  rw [hvalue, hname]
  cases a.value with
  | flag => rfl
  | text => rfl
  | expression text =>
    simp only
    split <;> rfl

theorem styleFindings_down :
    styleFindings context (e.down k) = (styleFindings context e).map (Diagnostic.down k) := by
  unfold styleFindings
  rw [attribute?_down]
  cases e.attribute? "style" with
  | none => rfl
  | some style =>
    have hliteral : (style.down k).objectLiteral? = style.objectLiteral? := rfl
    simp only [Option.map_some, hliteral]
    cases style.objectLiteral? with
    | none => rfl
    | some body =>
      simp only
      split <;> rfl

/-! ### Names -/

/-- The least line, further down. -/
theorem min?_map_add (lines : List Nat) : (lines.map (· + k)).min? = lines.min?.map (· + k) := by
  have hfold (least : Nat) (lines : List Nat) :
      (lines.map (· + k)).foldl min (least + k) = lines.foldl min least + k := by
    induction lines generalizing least with
    | nil => rfl
    | cons line lines ih =>
      rw [List.map_cons, List.foldl_cons, List.foldl_cons, Nat.add_min_add_right, ih]
  cases lines with
  | nil => rfl
  | cons line lines =>
    rw [List.map_cons, List.min?_cons', List.min?_cons', hfold, Option.map_some]

theorem nextDeclarationLine?_down (line : Nat) :
    nextDeclarationLine? (s.down k) (line + k) = (nextDeclarationLine? s line).map (· + k) := by
  have hlines : (s.down k).declarations.map (·.line) =
      (s.declarations.map (·.line)).map (· + k) := by
    show (s.declarations.map (Declaration.down k)).map _ = _
    rw [List.map_map, List.map_map]
    rfl
  have hbehind : (fun l => decide (line + k < l)) ∘ (· + k) = fun l => decide (line < l) :=
    funext fun l => decide_eq_decide.2 Nat.add_lt_add_iff_right
  unfold nextDeclarationLine?
  rw [hlines, List.filter_map, hbehind, min?_map_add]

theorem renders_down (d : Declaration) : renders (s.down k) (d.down k) = renders s d := by
  have hline : (d.down k).line = d.line + k := rfl
  unfold renders
  show (s.elements.map (Element.down k)).any _ = _
  rw [List.any_map, hline, nextDeclarationLine?_down]
  refine congrArg (fun p => s.elements.any p) (funext fun e => ?_)
  have helement : (e.down k).line = e.line + k := rfl
  cases nextDeclarationLine? s d.line <;> simp [helement]

theorem nameFindings_down (d : Declaration) :
    nameFindings (s.down k) (d.down k) = (nameFindings s d).map (Diagnostic.down k) := by
  have hname : (d.down k).name = d.name := rfl
  unfold nameFindings
  rw [renders_down, hname]
  split <;> rfl

end Findings

/-! ## Verdicts -/

section Verdicts

variable (k : Nat)

/-- Findings on parts that are found further down. -/
theorem map_down_flatMap {α : Type} {l : List α} {down : α → α}
    {findings findings' : α → List Diagnostic}
    (h : ∀ a ∈ l, findings' (down a) = (findings a).map (Diagnostic.down k)) :
    (l.map down).flatMap findings' = (l.flatMap findings).map (Diagnostic.down k) := by
  rw [List.flatMap_map, List.map_flatMap]
  exact List.flatMap_congr h

/-- **A rule finds the same further down.** -/
theorem check_down (context : Context) (s : Structure) :
    ∀ r ∈ defaultRules, r.check context (s.down k) = (r.check context s).down k := by
  have hcomponents : (s.down k).elements.filter (·.isComponent) =
      (s.elements.filter (·.isComponent)).map (Element.down k) := List.filter_map
  have hroots : (s.down k).elements.map (·.rootBinding) = s.elements.map (·.rootBinding) :=
    List.map_map
  have hcheck {r : Rule} {ds : Structure → List Diagnostic}
      (hwrite : ∀ s report, r.write context s report = report ++ .ofDiagnostics (ds s))
      (hdown : ds (s.down k) = (ds s).map (Diagnostic.down k)) :
      r.check context (s.down k) = (r.check context s).down k := by
    rw [check_eq_of_write_eq (hwrite (s.down k)), check_eq_of_write_eq (hwrite s), hdown]
    rfl
  simp only [defaultRules, List.forall_mem_cons]
  refine ⟨hcheck (write_pairingRule context) ?_, hcheck (write_importRule context) ?_,
    hcheck (write_usageRule context) ?_, hcheck (write_valueRule context) ?_,
    hcheck (write_accessibilityRule context) ?_, hcheck (write_performanceRule context) ?_, ?_,
    hcheck (write_styleRule context) ?_, List.forall_mem_nil _⟩
  · show (s.unclosed.map (tagDown k)).map _ ++ (s.unexpectedClosings.map (tagDown k)).map _ = _
    simp only [List.map_append, List.map_map]
    rfl
  · rw [hcomponents, hroots, missingReactFindings_down, unboundFindings_down, importsFrom_down,
      map_down_flatMap k fun i _ => unusedFindings_down k _ i, ← List.map_append,
      ← List.map_append]
    have hempty : (s.down k).elements.isEmpty = s.elements.isEmpty := List.isEmpty_map
    rw [hempty]
    split <;> rfl
  · rw [List.map_append, List.map_flatMap, List.map_flatMap]
    simp only [orphanFindings_down, deprecatedFindings_down]
  · rw [hcomponents]
    exact map_down_flatMap k fun e _ => elementValueFindings_down k s e context
  · have hkept : (s.down k).elements.filter (!·.hasSpread) =
        (s.elements.filter (!·.hasSpread)).map (Element.down k) := by
      show (s.elements.map (Element.down k)).filter _ = _
      rw [List.filter_map]
      refine congrArg (fun p => (s.elements.filter p).map (Element.down k)) (funext fun e => ?_)
      exact congrArg not (hasSpread_down k e)
    rw [hkept]
    refine map_down_flatMap k fun e _ => ?_
    rw [imageFindings_down, labelFindings_down, List.map_append]
  · exact map_down_flatMap k fun e _ => map_down_flatMap k fun a _ => handlerFindings_down k e a
  · rw [check_eq_of_write_eq (write_practiceRule context (s.down k)),
      check_eq_of_write_eq (write_practiceRule context s)]
    have hnames : (s.down k).declarations.flatMap (nameFindings (s.down k)) =
        (s.declarations.flatMap (nameFindings s)).map (Diagnostic.down k) :=
      map_down_flatMap k fun d _ => nameFindings_down k s d
    have hsize : sizeSuggestions context (s.down k) = sizeSuggestions context s := by
      unfold sizeSuggestions
      rw [tagCount_down]
    rw [hnames, hsize]
    rfl
  · exact map_down_flatMap k fun e _ => styleFindings_down k e context

theorem runRules_down (context : Context) (s : Structure) :
    runRules defaultRules context (s.down k) = (runRules defaultRules context s).down k := by
  have hreports (rules : List Rule)
      (h : ∀ r ∈ rules, r.check context (s.down k) = (r.check context s).down k) :
      reportsOf rules context (s.down k) = (reportsOf rules context s).down k := by
    induction rules with
    | nil => rfl
    | cons r rules ih =>
      show r.check context (s.down k) ++ reportsOf rules context (s.down k) = _
      rw [h r List.mem_cons_self, ih fun r' hr' => h r' (List.mem_cons_of_mem r hr')]
      exact congrArg (fun ds => Report.mk ds _) List.map_append.symm
  rw [runRules_eq appends_of_mem_defaultRules, runRules_eq appends_of_mem_defaultRules]
  exact hreports _ fun r hr => check_down k context s r (List.mem_filter.1 hr).1

theorem ofReport_down (r : Report) :
    Verdict.ofReport (r.down k) = (Verdict.ofReport r).down k := by
  have hpenalty : penalty ∘ Diagnostic.down k = penalty := rfl
  have hscore : qualityScore (r.diagnostics.map (Diagnostic.down k)) =
      qualityScore r.diagnostics := by
    unfold qualityScore
    rw [List.map_map, hpenalty]
  unfold Verdict.ofReport Report.down Verdict.down
  simp only [hscore, List.any_map, List.filter_map]
  rfl

/-- The finding of an anomaly further down; its message tells the line as well. -/
theorem anomalyFinding_down (a : Anomaly) :
    Verdict.anomalyFinding (a.down k) =
      { (Verdict.anomalyFinding a).down k with
        message := "Could not parse source: " ++ (a.down k).message } := by
  have hline : (a.down k).line? = a.line?.map (· + k) := by
    cases a <;> rfl
  show Diagnostic.mk _ _ (a.down k).line? _ = Diagnostic.mk _ _ (a.line?.map (· + k)) _
  rw [hline]
  rfl

/-- **Blank lines at the start of a source only shift line numbers.** With any number of them in
front, a source has the same structure or the same anomaly, with every line further down by that
number. So a verdict has the same findings in the same order on lines further down, and the same
score; of a source that cannot be taken apart, also the line that the message tells is further
down. -/
theorem validate_blankLines (k : Nat) (text : String) :
    Structure.ofText (String.ofList (List.replicate k '\n') ++ text) =
        downResult Structure.down k (Structure.ofText text) ∧
      ∀ context, match Structure.ofText text with
        | .ok _ =>
          validate context (String.ofList (List.replicate k '\n') ++ text) =
            (validate context text).down k
        | .error a =>
          validate context text = .ofAnomaly a ∧
            validate context (String.ofList (List.replicate k '\n') ++ text) =
              .ofAnomaly (a.down k) ∧
            Verdict.anomalyFinding (a.down k) =
              { (Verdict.anomalyFinding a).down k with
                message := "Could not parse source: " ++ (a.down k).message } := by
  have htext := Markup.ofText_blankLines k text
  refine ⟨htext, fun context => ?_⟩
  unfold validate validateWith
  rw [htext]
  cases Structure.ofText text with
  | error a => exact ⟨rfl, rfl, anomalyFinding_down k a⟩
  | ok s =>
    show Verdict.ofReport (runRules defaultRules context (s.down k)) = _
    rw [runRules_down, ofReport_down]

end Verdicts

end Validation

end DesignCompiler
