import DesignCompiler.Catalog.Builtin
import DesignCompiler.Proofs.Catalog.Lookups
import DesignCompiler.Proofs.Validation.Reports
import Mathlib.Data.List.Basic

/-!
# Aliases of library imports

A binding of the library may be imported under another name. `aliased` puts an alias into one of
the imports of a structure and into every tag that goes by the binding.

* `resolveTag_renameRoot`: a tag is resolved under its alias as it was before, as long as no
  earlier import of the library takes another component by the same name. The rules that resolve
  tags first therefore find the same; what the rule on values finds is said apart from the tag, as
  a `ValueFault`.
* The rule on accessibility looks at tags as they are written, so on elements of the binding it
  finds what the name of the alias calls for.
-/

namespace DesignCompiler.Validation

open Markup (Structure Element Attribute Import NamedImport rootOfTag)

/-! ## Renamed tags -/

/-- The tag with another first segment, if it starts with the given one. -/
def renameRoot (b x tag : String) : String :=
  if rootOfTag tag = b then x ++ String.ofList (tag.toList.drop b.length) else tag

section Tags

variable {b x tag : String}

theorem rootOfTag_eq (tag : String) :
    rootOfTag tag = String.ofList (tag.toList.takeWhile (· != '.')) :=
  Catalog.rootSegment_eq tag

/-- A tag is its first segment and the rest from the first dot on. -/
theorem toList_of_rootOfTag (hroot : rootOfTag tag = b) :
    tag.toList = b.toList ++ tag.toList.dropWhile (· != '.') := by
  rw [← hroot]
  exact Catalog.toList_eq_rootSegment_append tag

theorem renameRoot_of_ne (hroot : rootOfTag tag ≠ b) : renameRoot b x tag = tag :=
  if_neg hroot

/-- The rest of a tag stays. -/
theorem toList_renameRoot (hroot : rootOfTag tag = b) :
    (renameRoot b x tag).toList = x.toList ++ tag.toList.dropWhile (· != '.') := by
  have hrest : tag.toList.drop b.length = tag.toList.dropWhile (· != '.') :=
    (congrArg (List.drop b.length) (toList_of_rootOfTag hroot)).trans
      (List.drop_left' String.length_toList)
  rw [renameRoot, if_pos hroot, String.toList_append, String.toList_ofList, hrest]

/-- A name without dots is its own first segment, whatever follows its dot. -/
theorem takeWhile_name {s rest : List Char} (hs : '.' ∉ s)
    (hrest : rest = [] ∨ ∃ later, rest = '.' :: later) :
    (s ++ rest).takeWhile (· != '.') = s := by
  refine Text.takeWhile_append_head (fun c hc => ?_) (fun c hc => ?_)
  · rw [bne_iff_ne]
    rintro rfl
    exact hs hc
  · rcases hrest with rfl | ⟨later, rfl⟩
    · cases hc
    · cases hc
      rfl

/-- What stands behind the first segment of a tag starts with a dot. -/
theorem dropWhile_name (s : List Char) :
    s.dropWhile (· != '.') = [] ∨ ∃ later, s.dropWhile (· != '.') = '.' :: later := by
  cases hrest : s.dropWhile (· != '.') with
  | nil => exact .inl rfl
  | cons c later =>
    have hhead := List.head?_dropWhile_not (· != '.') s
    rw [hrest] at hhead
    obtain rfl : c = '.' := by simpa using hhead
    exact .inr ⟨later, rfl⟩

theorem rootOfTag_eq_self (htag : '.' ∉ tag.toList) : rootOfTag tag = tag := by
  rw [rootOfTag_eq, ← List.append_nil tag.toList, takeWhile_name htag (.inl rfl),
    String.ofList_toList]

theorem rootOfTag_renameRoot (hx : '.' ∉ x.toList) (hroot : rootOfTag tag = b) :
    rootOfTag (renameRoot b x tag) = x := by
  rw [rootOfTag_eq, toList_renameRoot hroot, takeWhile_name hx (dropWhile_name _),
    String.ofList_toList]

/-- The first name comes back when its alias is replaced by it. -/
theorem append_drop_renameRoot (hroot : rootOfTag tag = b) :
    b ++ String.ofList ((renameRoot b x tag).toList.drop x.length) = tag := by
  rw [toList_renameRoot hroot, List.drop_left' String.length_toList, ← String.toList_inj,
    String.toList_append, String.toList_ofList, ← toList_of_rootOfTag hroot]

end Tags

/-- The element with another name in its tag and in those around it. -/
def renamed (b x : String) (e : Element) : Element :=
  { e with tag := renameRoot b x e.tag, ancestors := e.ancestors.map (renameRoot b x) }

/-! ## Aliases -/

/-- A place among the bindings that a source imports by name: the imports around its statement,
and the bindings around it in the braces there. -/
structure BindingSite where
  before : List Import
  statement : Import
  front : List NamedImport
  back : List NamedImport
  after : List Import

namespace BindingSite

variable (site : BindingSite)

/-- The imports with the given binding at the place. -/
def imports (n : NamedImport) : List Import :=
  site.before ++ { site.statement with named := site.front ++ n :: site.back } :: site.after

/-- The bindings that are imported from a module in front of the place. -/
def earlier (module : String) : List NamedImport :=
  (site.before.filter (·.module == module)).flatMap (·.named) ++ site.front

/-- The bindings that are imported from a module behind the place. -/
def later (module : String) : List NamedImport :=
  site.back ++ (site.after.filter (·.module == module)).flatMap (·.named)

/-- The bindings that are imported from the module of the place. -/
theorem flatMap_named_imports {module : String} (hmodule : site.statement.module = module)
    (n : NamedImport) :
    ((site.imports n).filter (·.module == module)).flatMap (·.named) =
      site.earlier module ++ n :: site.later module := by
  unfold imports earlier later
  rw [List.filter_append, List.filter_cons_of_pos (by simpa using hmodule), List.flatMap_append,
    List.flatMap_cons]
  simp

end BindingSite

/-- The structure with the binding `b` of the place imported as `x`, and with tags that say so. -/
def aliased (s : Structure) (site : BindingSite) (b x : String) : Structure :=
  { s with
    imports := site.imports ⟨b, x⟩
    elements := s.elements.map (renamed b x)
    unexpectedClosings := s.unexpectedClosings.map fun p => (renameRoot b x p.1, p.2)
    unclosed := s.unclosed.map fun p => (renameRoot b x p.1, p.2) }

/-- The binding `b` is imported from the library at the place, under its own name, and `x` can be
an alias for it: it starts with a capital, has no dots, and nothing else goes by it. -/
structure IsAliasable (s : Structure) (library : String) (site : BindingSite) (b x : String) :
    Prop where
  module : site.statement.module = library
  imports : s.imports = site.imports ⟨b, b⟩
  capital : ∃ c ∈ x.toList.head?, c.isUpper = true
  dotless : '.' ∉ x.toList
  unbound : s.isBound x = false
  unused : ∀ e ∈ s.elements, ∀ tag ∈ e.tag :: e.ancestors, rootOfTag tag ≠ x

section Resolution

variable {s : Structure} {library : String} {site : BindingSite} {b x tag : String}

/-- A tag goes by its own name if the first binding of its root imports it under that name. -/
theorem resolveTag_eq_self
    (h : ∀ n, ((s.importsFrom library).flatMap (·.named)).find? (·.bound == rootOfTag tag) =
      some n →
      n.imported = rootOfTag tag) : resolveTag s library tag = tag := by
  unfold resolveTag
  simp only
  split
  · rename_i n hn
    exact if_pos (h n hn)
  · rfl

/-- The bindings of the library, with that of the place among them. -/
theorem IsAliasable.named_eq (h : IsAliasable s library site b x) :
    (s.importsFrom library).flatMap (·.named) =
      site.earlier library ++ ⟨b, b⟩ :: site.later library := by
  unfold Structure.importsFrom
  rw [h.imports, site.flatMap_named_imports h.module]

/-- No binding of the library in front of the place is called like the alias. -/
theorem IsAliasable.bound_ne (h : IsAliasable s library site b x) :
    ∀ n ∈ site.earlier library, n.bound ≠ x := by
  intro n hn hbound
  have hmem : n ∈ (s.importsFrom library).flatMap (·.named) :=
    h.named_eq ▸ List.mem_append_left _ hn
  obtain ⟨i, hi, hnamed⟩ := List.mem_flatMap.1 hmem
  have hlocal : x ∈ i.locals := List.mem_append_right _ (List.mem_map.2 ⟨n, hnamed, hbound⟩)
  have hany : s.imports.any (fun i => i.locals.contains x) = true :=
    List.any_eq_true.2 ⟨i, (List.mem_filter.1 hi).1, List.contains_iff_mem.2 hlocal⟩
  have hunbound := h.unbound
  rw [Structure.isBound, hany] at hunbound
  cases hunbound

end Resolution

/-! ## Tags under an alias -/

section Aliased

variable {s : Structure} {library : String} {site : BindingSite} {b x : String}
  (h : IsAliasable s library site b x)
  (hfirst : ∀ n ∈ site.earlier library, n.bound = b → n.imported = b)

include h hfirst

/-- A tag that goes by the binding is resolved to itself: the first binding of that name imports
it as it is. -/
theorem resolveTag_of_root {tag : String} (hroot : rootOfTag tag = b) :
    resolveTag s library tag = tag := by
  refine resolveTag_eq_self fun n hn => ?_
  rw [h.named_eq, hroot, List.find?_append] at hn
  rw [hroot]
  cases hfound : (site.earlier library).find? (·.bound == b) with
  | some m =>
    rw [hfound] at hn
    cases hn
    exact hfirst n (List.mem_of_find?_eq_some hfound) (by simpa using List.find?_some hfound)
  | none =>
    rw [hfound, Option.none_or, List.find?_cons_of_pos (by simp)] at hn
    cases hn
    rfl

/-- **A tag under an alias is resolved as it was before.** -/
theorem resolveTag_renameRoot {tag : String} (htag : rootOfTag tag ≠ x) :
    resolveTag (aliased s site b x) library (renameRoot b x tag) = resolveTag s library tag := by
  have hbefore := h.named_eq
  have hafter : ((aliased s site b x).importsFrom library).flatMap (·.named) =
      site.earlier library ++ ⟨b, x⟩ :: site.later library :=
    site.flatMap_named_imports h.module ⟨b, x⟩
  by_cases hroot : rootOfTag tag = b
  · have hself : resolveTag s library tag = tag := resolveTag_of_root h hfirst hroot
    have hfind : (site.earlier library ++ ⟨b, x⟩ :: site.later library).find? (·.bound == x) =
        some ⟨b, x⟩ := by
      have hnone : (site.earlier library).find? (·.bound == x) = none :=
        List.find?_eq_none.2 fun n hn => by simpa using h.bound_ne n hn
      rw [List.find?_append, hnone, Option.none_or, List.find?_cons_of_pos (by simp)]
    rw [hself]
    unfold resolveTag
    simp only [hafter, rootOfTag_renameRoot h.dotless hroot, hfind]
    split
    · rename_i hsame
      subst hsame
      exact absurd hroot htag
    · exact append_drop_renameRoot hroot
  · have hother (y : String) (hy : rootOfTag tag ≠ y) :
        (⟨b, y⟩ :: site.later library : List NamedImport).find? (·.bound == rootOfTag tag) =
          (site.later library).find? (·.bound == rootOfTag tag) :=
      List.find?_cons_of_neg (by simpa using Ne.symm hy)
    unfold resolveTag
    rw [renameRoot_of_ne hroot]
    simp only [hbefore, hafter, List.find?_append, hother b hroot, hother x htag]

theorem resolvesAlike_aliased : ResolvesAlike library (renamed b x) s (aliased s site b x) where
  elements := rfl
  tag e he := resolveTag_renameRoot h hfirst (h.unused e he e.tag List.mem_cons_self)
  ancestors e he := by
    show (e.ancestors.map (renameRoot b x)).map (resolveTag (aliased s site b x) library) = _
    rw [List.map_map]
    exact List.map_congr_left fun tag hmem =>
      resolveTag_renameRoot h hfirst (h.unused e he tag (List.mem_cons_of_mem _ hmem))

theorem orphanFindings_aliased (component ancestor : String) :
    orphanFindings (aliased s site b x) library component ancestor =
      orphanFindings s library component ancestor :=
  ((resolvesAlike_aliased h hfirst).orphanFindings_eq (g := id) (fun _ _ => rfl) component
    ancestor).trans
    (List.map_id _)

theorem deprecatedFindings_aliased (component advice : String) :
    deprecatedFindings (aliased s site b x) library component advice =
      deprecatedFindings s library component advice :=
  ((resolvesAlike_aliased h hfirst).deprecatedFindings_eq (g := id) (fun _ _ => rfl) component
    advice).trans
    (List.map_id _)

end Aliased

/-! ## Faults in values -/

/-- What is wrong with the value of an attribute, apart from the tag that it stands in. -/
structure ValueFault where
  value : String
  property : String
  typeDescription : String
  line : Nat

/-- The finding of a fault in an element with that tag. -/
def ValueFault.shown (fault : ValueFault) (tag : String) : Diagnostic :=
  (Diagnostic.error .property
    ("Invalid value '" ++ fault.value ++ "' for prop '" ++ fault.property ++ "' on <" ++ tag ++
      ">; expected " ++ fault.typeDescription)).atLine fault.line

/-- What is wrong with the value of an attribute. -/
def valueFault? (entry : Catalog.Entry) (a : Attribute) : Option ValueFault :=
  (entry.property? a.name).bind fun p => (literalOf? a.value).bind fun value =>
    if p.allowedValues.isEmpty || p.allowedValues.contains value then none
    else some ⟨value, a.name, p.typeDescription, a.line⟩

theorem valueFindings_eq (entry : Catalog.Entry) (tag : String) (a : Attribute) :
    valueFindings entry tag a = (valueFault? entry a).toList.map (·.shown tag) := by
  unfold valueFindings valueFault?
  cases entry.property? a.name with
  | none => rfl
  | some p =>
    cases literalOf? a.value with
    | none => rfl
    | some value =>
      simp only [Option.bind_some]
      split <;> rfl

/-- What is wrong with the values of attributes, if the catalog has an entry for the component. -/
def faultsUnder : Option Catalog.Entry → List Attribute → List ValueFault
  | none, _ => []
  | some entry, attributes => attributes.flatMap fun a => (valueFault? entry a).toList

/-- What is wrong with the values in an element, if it is one of a component. -/
def valueFaults (context : Context) (s : Structure) (e : Element) : List ValueFault :=
  if e.isComponent then
    faultsUnder (context.catalog.entry? (resolveTag s context.options.libraryModule e.tag))
      e.attributes
  else []

/-- The rule on values reports the faults of each element under its tag. -/
theorem check_valueRule_faults (context : Context) (s : Structure) :
    valueRule.check context s =
      .ofDiagnostics
        ((s.elements.flatMap fun e =>
          (valueFaults context s e).map fun fault => (e.tag, fault)).map
          fun f => f.2.shown f.1) := by
  rw [check_eq_of_write_eq (write_valueRule context s), flatMap_filter, List.map_flatMap]
  refine congrArg Report.ofDiagnostics (List.flatMap_congr fun e _ => ?_)
  unfold valueFaults elementValueFindings
  rw [List.map_map]
  split
  · cases context.catalog.entry? (resolveTag s context.options.libraryModule e.tag) with
    | none => rfl
    | some entry =>
      rw [faultsUnder, List.map_flatMap]
      exact List.flatMap_congr fun a _ => valueFindings_eq entry e.tag a
  · rfl

/-- A tag that starts with a capital names a component. -/
theorem isComponent_of_head? {e : Element} (hhead : ∃ c ∈ e.tag.toList.head?, c.isUpper = true) :
    e.isComponent = true := by
  obtain ⟨c, hc, hupper⟩ := hhead
  unfold Element.isComponent
  rw [Option.mem_def.1 hc, Option.map_some, Option.getD_some, hupper]
  rfl

/-- A name that a catalog has an entry for starts with a capital. -/
theorem isUpper_of_hasEntry {index : Catalog.Index} (hindex : index.Faithful) {name : String}
    {entry : Catalog.Entry} (hentry : index.entry? name = some entry) :
    ∃ c ∈ name.toList.head?, c.isUpper = true := by
  rw [hindex.entry?_eq] at hentry
  obtain ⟨-, -, hname, -⟩ := Catalog.Source.entry?_eq_some hentry
  obtain ⟨c, rest, hroot, hupper, -⟩ :=
    Catalog.isNameSegment_eq_true (Catalog.isNameSegment_rootSegment hname)
  refine ⟨c, ?_, hupper⟩
  rw [Catalog.toList_eq_rootSegment_append, hroot]
  rfl

section Findings

variable {context : Context} {s : Structure} {site : BindingSite} {b x : String}

/-- The values in an element have the same faults under an alias. -/
theorem valueFaults_renamed (hcatalog : context.catalog.Faithful)
    (h : IsAliasable s context.options.libraryModule site b x)
    (hfirst : ∀ n ∈ site.earlier context.options.libraryModule, n.bound = b → n.imported = b)
    {e : Element} (he : e ∈ s.elements) :
    valueFaults context (aliased s site b x) (renamed b x e) = valueFaults context s e := by
  have hresolve := resolveTag_renameRoot h hfirst (h.unused e he e.tag List.mem_cons_self)
  by_cases hroot : rootOfTag e.tag = b
  · -- The alias is one of a component; the name was one too, or the catalog has nothing for it.
    have hrenamed : (renamed b x e).isComponent = true := by
      obtain ⟨c, hc, hupper⟩ := h.capital
      refine isComponent_of_head? ⟨c, ?_, hupper⟩
      show c ∈ (renameRoot b x e.tag).toList.head?
      rw [toList_renameRoot hroot, List.head?_append, Option.mem_def.1 hc]
      rfl
    have hself := resolveTag_of_root h hfirst hroot
    unfold valueFaults
    rw [if_pos hrenamed]
    show faultsUnder (context.catalog.entry?
      (resolveTag (aliased s site b x) context.options.libraryModule (renameRoot b x e.tag)))
      e.attributes = _
    rw [hresolve, hself]
    cases hentry : context.catalog.entry? e.tag with
    | none => exact (ite_self _).symm
    | some entry => rw [if_pos (isComponent_of_head? (isUpper_of_hasEntry hcatalog hentry))]
  · have htag : renameRoot b x e.tag = e.tag := renameRoot_of_ne hroot
    unfold valueFaults
    show (if ({ e with tag := renameRoot b x e.tag } : Element).isComponent then
      faultsUnder (context.catalog.entry?
        (resolveTag (aliased s site b x) context.options.libraryModule (renameRoot b x e.tag)))
        e.attributes
      else []) = _
    rw [hresolve, htag]

/-- The rules on library components find the same under an alias: the rule on usage word for word,
and the rule on values the same faults, each under the tag as it is written now. -/
theorem findings_aliased (hcatalog : context.catalog.Faithful)
    (h : IsAliasable s context.options.libraryModule site b x)
    (hfirst : ∀ n ∈ site.earlier context.options.libraryModule, n.bound = b → n.imported = b) :
    usageRule.check context (aliased s site b x) = usageRule.check context s ∧
    ∃ faults : List (String × ValueFault),
      valueRule.check context s = .ofDiagnostics (faults.map fun f => f.2.shown f.1) ∧
      valueRule.check context (aliased s site b x) =
        .ofDiagnostics (faults.map fun f => f.2.shown (renameRoot b x f.1)) := by
  refine ⟨?_, _, check_valueRule_faults context s, ?_⟩
  · rw [check_eq_of_write_eq (write_usageRule context (aliased s site b x)),
      check_eq_of_write_eq (write_usageRule context s)]
    simp only [orphanFindings_aliased h hfirst, deprecatedFindings_aliased h hfirst]
  · rw [check_valueRule_faults]
    show Report.ofDiagnostics (((s.elements.map (renamed b x)).flatMap _).map _) = _
    rw [List.flatMap_map, List.map_flatMap, List.map_flatMap]
    refine congrArg Report.ofDiagnostics (List.flatMap_congr fun e he => ?_)
    rw [valueFaults_renamed hcatalog h hfirst he, List.map_map, List.map_map]
    rfl

end Findings

/-- A button of a shape that there is not, with what is imported from the library in front of
the import of the button. -/
def ovalButton (before : List Import) : Structure where
  imports := ⟨"react", some "React", none, [], 1⟩ ::
    (before ++ [⟨"antd", none, none, [⟨"Button", "Button"⟩], 5⟩])
  declarations := [⟨"A", 6⟩]
  elements := [⟨"Button", [⟨"shape", .text "oval", 6⟩], 6, [], "Go", false, false, false⟩]
  unexpectedClosings := []
  unclosed := []
  lineCount := 6

/-- The place of the button among the imports. -/
def ovalButtonSite (before : List Import) : BindingSite where
  before := ⟨"react", some "React", none, [], 1⟩ :: before
  statement := ⟨"antd", none, none, [], 5⟩
  front := []
  back := []
  after := []

/-- The shape is found wrong under both names. -/
theorem findings_aliased_ovalButton :
    IsAliasable (ovalButton []) "antd" (ovalButtonSite []) "Button" "Btn" ∧
    (∀ n ∈ (ovalButtonSite []).earlier "antd", n.bound = "Button" → n.imported = "Button") ∧
    (valueRule.check ⟨.ofSource Catalog.builtinSource, .default⟩
      (ovalButton [])).diagnostics.length = 1 ∧
    ∃ faults : List (String × ValueFault),
      valueRule.check ⟨.ofSource Catalog.builtinSource, .default⟩ (ovalButton []) =
        .ofDiagnostics (faults.map fun f => f.2.shown f.1) ∧
      valueRule.check ⟨.ofSource Catalog.builtinSource, .default⟩
          (aliased (ovalButton []) (ovalButtonSite []) "Button" "Btn") =
        .ofDiagnostics (faults.map fun f => f.2.shown (renameRoot "Button" "Btn" f.1)) := by
  have h : IsAliasable (ovalButton []) "antd" (ovalButtonSite []) "Button" "Btn" :=
    ⟨rfl, rfl, ⟨'B', rfl, rfl⟩, by decide, by decide, by decide⟩
  have hfirst : ∀ n ∈ (ovalButtonSite []).earlier "antd",
      n.bound = "Button" → n.imported = "Button" := nofun
  have hcatalog := Catalog.Index.faithful_ofSource Catalog.builtinSource
  obtain ⟨-, hfaults⟩ := @findings_aliased ⟨_, .default⟩ _ _ _ _ hcatalog h hfirst
  exact ⟨h, hfirst, by decide, hfaults⟩

/-- Behind an import of another component by that name the shape is found wrong only under the
alias: before, the tag is resolved to the other component. -/
theorem findings_aliased_homonym :
    (Catalog.Index.ofSource Catalog.builtinSource).Faithful ∧
    IsAliasable (ovalButton [⟨"antd", none, none, [⟨"Card", "Button"⟩], 3⟩]) "antd"
      (ovalButtonSite [⟨"antd", none, none, [⟨"Card", "Button"⟩], 3⟩]) "Button" "Btn" ∧
    (valueRule.check ⟨.ofSource Catalog.builtinSource, .default⟩
      (ovalButton [⟨"antd", none, none, [⟨"Card", "Button"⟩], 3⟩])).diagnostics.length = 0 ∧
    (valueRule.check ⟨.ofSource Catalog.builtinSource, .default⟩
      (aliased (ovalButton [⟨"antd", none, none, [⟨"Card", "Button"⟩], 3⟩])
        (ovalButtonSite [⟨"antd", none, none, [⟨"Card", "Button"⟩], 3⟩]) "Button"
        "Btn")).diagnostics.length = 1 :=
  ⟨Catalog.Index.faithful_ofSource Catalog.builtinSource,
    ⟨rfl, rfl, ⟨'B', rfl, rfl⟩, by decide, by decide, by decide⟩, by decide, by decide⟩

/-! ## Findings on tags as they are written -/

/-- What the rule on accessibility finds on an element. -/
def accessFindings (e : Element) : List Diagnostic :=
  if e.hasSpread then [] else imageFindings e ++ labelFindings e

theorem check_accessibilityRule (context : Context) (s : Structure) :
    accessibilityRule.check context s = .ofDiagnostics (s.elements.flatMap accessFindings) := by
  rw [check_eq_of_write_eq (write_accessibilityRule context s), flatMap_filter]
  refine congrArg Report.ofDiagnostics (List.flatMap_congr fun e _ => ?_)
  unfold accessFindings
  cases e.hasSpread <;> rfl

/-- What is gathered from those that pass looks like what is gathered from all just if the others
give nothing. -/
theorem map_flatMap_filter_iff {ι α β : Type} (p : ι → Bool) (f : ι → List α) (g : α → β)
    (items : List ι) :
    ((items.filter p).flatMap f).map g = (items.flatMap f).map g ↔
      ∀ i ∈ items, p i = false → f i = [] := by
  constructor
  · -- All give as many as those that pass, so nothing is left for the others.
    intro hsame i hi hp
    have hlength := ((List.filter_append_perm p items).flatMap_right f).length_eq
    have hlengths := congrArg List.length hsame
    rw [List.length_map, List.length_map] at hlengths
    rw [List.flatMap_append, List.length_append, ← hlengths] at hlength
    have hothers : (items.filter fun i => !p i).flatMap f = [] :=
      List.eq_nil_of_length_eq_zero (by omega)
    exact List.flatMap_eq_nil_iff.1 hothers i (List.mem_filter.2 ⟨hi, by simpa using hp⟩)
  · intro hnone
    rw [flatMap_filter]
    refine congrArg (List.map g) (List.flatMap_congr fun i hi => ?_)
    cases hp : p i with
    | true => exact if_pos rfl
    | false => exact (if_neg Bool.false_ne_true).trans (hnone i hi hp).symm

/-- The tags that the rule on accessibility looks at. -/
def watchedTags : List String :=
  "Avatar" :: (imageTags ++ interactiveTags)

theorem accessFindings_of_not_watched {e : Element} (htag : e.tag ∉ watchedTags) :
    accessFindings e = [] := by
  simp only [watchedTags, List.mem_cons, List.mem_append, not_or] at htag
  obtain ⟨havatar, himage, haction⟩ := htag
  have hlike : isImageLike e = false := by simp [isImageLike, himage, havatar]
  have hcontains : interactiveTags.contains e.tag = false := by simp [haction]
  unfold accessFindings imageFindings labelFindings
  rw [hlike, hcontains]
  exact ite_self _

/-- No dotted tag is looked at. -/
theorem not_watched_of_dot {tag : String} (hdot : '.' ∈ tag.toList) : tag ∉ watchedTags := by
  have hplain : ∀ t ∈ watchedTags, '.' ∉ t.toList := by decide
  exact fun hmem => hplain tag hmem hdot

section Accessibility

variable {b x : String} {e : Element}

/-- On an element with another tag the same is found: a tag that only goes by the binding has a
dot in it. -/
theorem accessFindings_renamed_of_ne (htag : e.tag ≠ b) :
    accessFindings (renamed b x e) = accessFindings e := by
  by_cases hroot : rootOfTag e.tag = b
  · have hdot : '.' ∈ e.tag.toList.dropWhile (· != '.') := by
      rcases dropWhile_name e.tag.toList with hrest | ⟨later, hrest⟩
      · have hsame := toList_of_rootOfTag hroot
        rw [hrest, List.append_nil] at hsame
        exact absurd (String.toList_inj.1 hsame) htag
      · rw [hrest]
        exact List.mem_cons_self
    have hbefore : '.' ∈ e.tag.toList := (List.dropWhile_sublist _).subset hdot
    have hafter : '.' ∈ (renamed b x e).tag.toList := by
      show '.' ∈ (renameRoot b x e.tag).toList
      rw [toList_renameRoot hroot]
      exact List.mem_append_right _ hdot
    rw [accessFindings_of_not_watched (not_watched_of_dot hbefore),
      accessFindings_of_not_watched (not_watched_of_dot hafter)]
  · have hsame : renameRoot b x e.tag = e.tag := renameRoot_of_ne hroot
    show accessFindings { e with tag := renameRoot b x e.tag, ancestors := _ } = _
    rw [hsame]
    rfl

/-- The alias of a binding is looked at only if the rule knows it; a binding with a dot in it
stays as it is. -/
theorem renameRoot_not_watched (hx : x ∉ watchedTags) : renameRoot b x b ∉ watchedTags := by
  by_cases hroot : rootOfTag b = b
  · have halias : renameRoot b x b = x := by
      rw [renameRoot, if_pos hroot, ← String.length_toList, List.drop_length]
      exact String.append_empty
    rwa [halias]
  · rw [renameRoot_of_ne hroot]
    exact not_watched_of_dot
      (Decidable.byContradiction fun hdot => hroot (rootOfTag_eq_self hdot))

end Accessibility

/-- **The rule on accessibility looks at tags as they are written.** An element whose tag is the
binding is judged as one with the alias as its tag, and every other element as before. So under an
alias that the rule does not know its findings stay as many, of the same kinds and on the same
lines just if it found nothing on the elements whose tag is the binding. -/
theorem accessibility_aliased (context : Context) (s : Structure) (site : BindingSite)
    (b x : String) :
    (accessibilityRule.check context (aliased s site b x)).diagnostics =
      s.elements.flatMap (fun e =>
        accessFindings (if e.tag = b then { e with tag := renameRoot b x b } else e)) ∧
    (x ∉ watchedTags →
      ((accessibilityRule.check context (aliased s site b x)).diagnostics.map
        (fun d => (d.kind, d.line)) =
          (accessibilityRule.check context s).diagnostics.map (fun d => (d.kind, d.line)) ↔
        ∀ e ∈ s.elements, e.tag = b → accessFindings e = [])) := by
  have hafter : (accessibilityRule.check context (aliased s site b x)).diagnostics =
      s.elements.flatMap (fun e =>
        accessFindings (if e.tag = b then { e with tag := renameRoot b x b } else e)) := by
    rw [check_accessibilityRule]
    show (s.elements.map (renamed b x)).flatMap accessFindings = _
    rw [List.flatMap_map]
    refine List.flatMap_congr fun e _ => ?_
    by_cases htag : e.tag = b
    · rw [if_pos htag, ← htag]
      rfl
    · rw [if_neg htag, accessFindings_renamed_of_ne htag]
  have hbefore : (accessibilityRule.check context s).diagnostics =
      s.elements.flatMap accessFindings := by
    rw [check_accessibilityRule]
    rfl
  refine ⟨hafter, fun hx => ?_⟩
  have hothers : (accessibilityRule.check context (aliased s site b x)).diagnostics =
      (s.elements.filter (·.tag != b)).flatMap accessFindings := by
    rw [hafter, flatMap_filter]
    refine List.flatMap_congr fun e _ => ?_
    by_cases htag : e.tag = b
    · rw [if_pos htag, if_neg (by simpa using htag)]
      exact accessFindings_of_not_watched (renameRoot_not_watched hx)
    · rw [if_neg htag, if_pos (by simpa using htag)]
  rw [hothers, hbefore, map_flatMap_filter_iff]
  simp only [bne_eq_false_iff_eq]

/-- A button that says nothing, and an image behind it that does not either. -/
def bareButton : Structure where
  imports :=
    [⟨"react", some "React", none, [], 1⟩, ⟨"antd", none, none, [⟨"Button", "Button"⟩], 2⟩]
  declarations := [⟨"A", 3⟩]
  elements :=
    [⟨"Button", [], 3, [], "", false, false, true⟩,
      ⟨"img", [⟨"src", .text "a.png", 4⟩], 4, [], "", false, false, true⟩]
  unexpectedClosings := []
  unclosed := []
  lineCount := 4

/-- The place of the button among the imports. -/
def bareButtonSite : BindingSite where
  before := [⟨"react", some "React", none, [], 1⟩]
  statement := ⟨"antd", none, none, [], 2⟩
  front := []
  back := []
  after := []

/-- The finding on the image stays, and the one on the button is gone. -/
theorem accessibility_aliased_image :
    "Btn" ∉ watchedTags ∧
    (accessibilityRule.check ⟨.ofSource Catalog.builtinSource, .default⟩
      (aliased bareButton bareButtonSite "Button" "Btn")).diagnostics =
        [(Diagnostic.warning .accessibility "<img> has no alt text").atLine 4] ∧
    (accessibilityRule.check ⟨.ofSource Catalog.builtinSource, .default⟩
        (aliased bareButton bareButtonSite "Button" "Btn")).diagnostics.map
      (fun d => (d.kind, d.line)) ≠
      (accessibilityRule.check ⟨.ofSource Catalog.builtinSource, .default⟩
        bareButton).diagnostics.map
        (fun d => (d.kind, d.line)) := by
  have halias : "Btn" ∉ watchedTags := by decide
  obtain ⟨hafter, hsame⟩ :=
    accessibility_aliased ⟨.ofSource Catalog.builtinSource, .default⟩ bareButton
      bareButtonSite "Button" "Btn"
  refine ⟨halias, hafter.trans (by decide), fun heq => ?_⟩
  exact absurd ((hsame halias).1 heq _ List.mem_cons_self rfl) (by decide)

/-- A button that says nothing is found under its own name only. -/
theorem accessibility_aliased_button :
    IsAliasable bareButton "antd" bareButtonSite "Button" "Btn" ∧
    (accessibilityRule.check ⟨.ofSource Catalog.builtinSource, .default⟩
      bareButton).diagnostics.map
      (fun d => (d.kind, d.line)) = [(.accessibility, some 3), (.accessibility, some 4)] ∧
    (accessibilityRule.check ⟨.ofSource Catalog.builtinSource, .default⟩
      (aliased bareButton bareButtonSite "Button" "Btn")).diagnostics.map
        (fun d => (d.kind, d.line)) = [(.accessibility, some 4)] :=
  ⟨⟨rfl, rfl, ⟨'B', rfl, rfl⟩, by decide, by decide, by decide⟩, by decide, by decide⟩

end DesignCompiler.Validation
