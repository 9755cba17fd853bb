import DesignCompiler.Design.Format
import DesignCompiler.Proofs.Json.Fields

/-!
# Design nodes read back

A node that is written as a value and read again is the same node. Every field is written, an
absent one as null, and a field that may not be null is never absent; what is `other` is written
as a word of its own. Only a number that is no number, or an infinite one, is lost: it is written
as null (`Node.isFinite`).

The value may have been rearranged in between: `Node.ofJson?_toJson` is about the fields in their
declared order and about the order in which a generic value keeps them.
-/

namespace DesignCompiler.Design

open Json (Rearrangement)
open Record (exists_ofJson? required_eq withDefault_eq nullable_eq)

/-! ## Finite numbers -/

/-- Whether all numbers of the rectangle are finite. -/
def Rect.isFinite (r : Rect) : Bool :=
  r.x.isFinite && r.y.isFinite && r.width.isFinite && r.height.isFinite

/-- Whether all channels of the colour are finite. -/
def Color.isFinite (c : Color) : Bool :=
  c.red.isFinite && c.green.isFinite && c.blue.isFinite && c.alpha.isFinite

/-- Whether all numbers of the paint are finite. -/
def Paint.isFinite (p : Paint) : Bool :=
  p.opacity.isFinite && p.color.all Color.isFinite

/-- Whether both numbers of the displacement are finite. -/
def Offset.isFinite (o : Offset) : Bool :=
  o.x.isFinite && o.y.isFinite

/-- Whether all numbers of the effect are finite. -/
def Effect.isFinite (e : Effect) : Bool :=
  e.color.all Color.isFinite && e.offset.all Offset.isFinite && e.radius.isFinite &&
    e.spread.isFinite

/-- Whether all numbers of the type style are finite. -/
def TypeStyle.isFinite (s : TypeStyle) : Bool :=
  s.fontSize.all Float.isFinite && s.fontWeight.all Float.isFinite

mutual

/-- Whether all numbers of the node and of those below it are finite. -/
def Node.isFinite : Node → Bool
  | ⟨_, _, _, bounds, fills, strokes, strokeWeight, cornerRadius, opacity, effects, _, style, _,
      _, _, _, _, itemSpacing, paddingLeft, paddingRight, paddingTop, paddingBottom, children⟩ =>
    bounds.all Rect.isFinite && fills.all Paint.isFinite && strokes.all Paint.isFinite &&
      [strokeWeight, cornerRadius, opacity, itemSpacing, paddingLeft, paddingRight, paddingTop,
        paddingBottom].all
        (·.all Float.isFinite) &&
      effects.all Effect.isFinite && style.all TypeStyle.isFinite && Node.areFinite children

/-- Whether all numbers of the nodes are finite. -/
def Node.areFinite : List Node → Bool
  | [] => true
  | node :: rest => Node.isFinite node && Node.areFinite rest

end

theorem Node.areFinite_eq (nodes : List Node) :
    Node.areFinite nodes = nodes.all Node.isFinite := by
  induction nodes with
  | nil => rfl
  | cons node rest ih => rw [areFinite, ih, List.all_cons]

theorem Node.listToJson_eq (nodes : List Node) :
    Node.listToJson nodes = nodes.map Node.toJson := by
  induction nodes with
  | nil => rfl
  | cons node rest ih => rw [listToJson, ih, List.map_cons]

/-! ## Parts of nodes -/

section Parts

variable {f : Json → Json}

theorem Rect.ofJson?_rearranged (hf : Rearrangement f) {r : Rect} (h : r.isFinite = true) :
    Rect.ofJson? (f r.toJson) = some r := by
  simp only [isFinite, Bool.and_eq_true] at h
  obtain ⟨⟨⟨hx, hy⟩, hwidth⟩, hheight⟩ := h
  obtain ⟨fields, hfields, hvalue⟩ :=
    exists_ofJson? hf ["x", "y", "width", "height"] (v := r.toJson) rfl
  unfold ofJson?
  rw [hfields, Option.bind_eq_bind, Option.bind_some,
    required_eq (hvalue "x" _ rfl) (hf.float? hx), required_eq (hvalue "y" _ rfl) (hf.float? hy),
    required_eq (hvalue "width" _ rfl) (hf.float? hwidth),
    required_eq (hvalue "height" _ rfl) (hf.float? hheight)]
  rfl

theorem Color.ofJson?_rearranged (hf : Rearrangement f) {c : Color} (h : c.isFinite = true) :
    Color.ofJson? (f c.toJson) = some c := by
  simp only [isFinite, Bool.and_eq_true] at h
  obtain ⟨⟨⟨hred, hgreen⟩, hblue⟩, halpha⟩ := h
  obtain ⟨fields, hfields, hvalue⟩ := exists_ofJson? hf ["r", "g", "b", "a"] (v := c.toJson) rfl
  unfold ofJson?
  rw [hfields, Option.bind_eq_bind, Option.bind_some,
    required_eq (hvalue "r" _ rfl) (hf.float? hred),
    required_eq (hvalue "g" _ rfl) (hf.float? hgreen),
    required_eq (hvalue "b" _ rfl) (hf.float? hblue),
    withDefault_eq (hvalue "a" _ rfl) (hf.float? halpha)]
  rfl

theorem Paint.ofJson?_rearranged (hf : Rearrangement f) {p : Paint} (h : p.isFinite = true) :
    Paint.ofJson? (f p.toJson) = some p := by
  simp only [isFinite, Bool.and_eq_true, Option.all_eq_true] at h
  obtain ⟨hopacity, hcolor⟩ := h
  obtain ⟨fields, hfields, hvalue⟩ :=
    exists_ofJson? hf ["type", "visible", "opacity", "color", "imageRef"] (v := p.toJson) rfl
  have hkind : (f (.str p.kind.word)).word?.map PaintKind.ofWord = some p.kind := by
    simp [hf.word?]
  unfold ofJson?
  rw [hfields, Option.bind_eq_bind, Option.bind_some, required_eq (hvalue "type" _ rfl) hkind,
    withDefault_eq (hvalue "visible" _ rfl) (hf.bool? p.visible),
    withDefault_eq (hvalue "opacity" _ rfl) (hf.float? hopacity),
    nullable_eq hf (hvalue "color" _ rfl) rfl
      fun c hc => Color.ofJson?_rearranged hf (hcolor c hc),
    nullable_eq hf (hvalue "imageRef" _ rfl) rfl fun s _ => hf.string? s]
  rfl

theorem Offset.ofJson?_rearranged (hf : Rearrangement f) {o : Offset} (h : o.isFinite = true) :
    Offset.ofJson? (f o.toJson) = some o := by
  simp only [isFinite, Bool.and_eq_true] at h
  obtain ⟨fields, hfields, hvalue⟩ := exists_ofJson? hf ["x", "y"] (v := o.toJson) rfl
  unfold ofJson?
  rw [hfields, Option.bind_eq_bind, Option.bind_some,
    required_eq (hvalue "x" _ rfl) (hf.float? h.1),
    required_eq (hvalue "y" _ rfl) (hf.float? h.2)]
  rfl

theorem Effect.ofJson?_rearranged (hf : Rearrangement f) {e : Effect} (h : e.isFinite = true) :
    Effect.ofJson? (f e.toJson) = some e := by
  simp only [isFinite, Bool.and_eq_true, Option.all_eq_true] at h
  obtain ⟨⟨⟨hcolor, hoffset⟩, hradius⟩, hspread⟩ := h
  obtain ⟨fields, hfields, hvalue⟩ :=
    exists_ofJson? hf ["type", "visible", "color", "offset", "radius", "spread"]
      (v := e.toJson) rfl
  have hkind : (f (.str e.kind.word)).word?.map EffectKind.ofWord = some e.kind := by
    simp [hf.word?]
  unfold ofJson?
  rw [hfields, Option.bind_eq_bind, Option.bind_some, required_eq (hvalue "type" _ rfl) hkind,
    withDefault_eq (hvalue "visible" _ rfl) (hf.bool? e.visible),
    nullable_eq hf (hvalue "color" _ rfl) rfl
      fun c hc => Color.ofJson?_rearranged hf (hcolor c hc),
    nullable_eq hf (hvalue "offset" _ rfl) rfl
      fun o ho => Offset.ofJson?_rearranged hf (hoffset o ho),
    withDefault_eq (hvalue "radius" _ rfl) (hf.float? hradius),
    withDefault_eq (hvalue "spread" _ rfl) (hf.float? hspread)]
  rfl

theorem TypeStyle.ofJson?_rearranged (hf : Rearrangement f) {s : TypeStyle}
    (h : s.isFinite = true) :
    TypeStyle.ofJson? (f s.toJson) = some s := by
  simp only [isFinite, Bool.and_eq_true, Option.all_eq_true] at h
  obtain ⟨hsize, hweight⟩ := h
  obtain ⟨fields, hfields, hvalue⟩ :=
    exists_ofJson? hf ["fontFamily", "fontSize", "fontWeight", "textAlignHorizontal"]
      (v := s.toJson) rfl
  have halign (a : TextAlign) : (f (.str a.word)).word?.bind TextAlign.ofWord? = some a := by
    simp [hf.word?]
  unfold ofJson?
  rw [hfields, Option.bind_eq_bind, Option.bind_some,
    nullable_eq hf (hvalue "fontFamily" _ rfl) rfl fun t _ => hf.string? t,
    nullable_eq hf (hvalue "fontSize" _ rfl) rfl fun x hx => hf.float? (hsize x hx),
    nullable_eq hf (hvalue "fontWeight" _ rfl) rfl fun x hx => hf.float? (hweight x hx),
    nullable_eq hf (hvalue "textAlignHorizontal" _ rfl) rfl fun a _ => halign a]
  rfl

theorem Constraints.ofJson?_rearranged (hf : Rearrangement f) (c : Constraints) :
    Constraints.ofJson? (f c.toJson) = some c := by
  obtain ⟨fields, hfields, hvalue⟩ :=
    exists_ofJson? hf ["horizontal", "vertical"] (v := c.toJson) rfl
  have hkind (k : ConstraintKind) :
      (f (.str k.word)).word?.map ConstraintKind.ofWord = some k := by simp [hf.word?]
  unfold ofJson?
  rw [hfields, Option.bind_eq_bind, Option.bind_some,
    required_eq (hvalue "horizontal" _ rfl) (hkind c.horizontal),
    required_eq (hvalue "vertical" _ rfl) (hkind c.vertical)]
  rfl

end Parts

/-! ## Nodes -/

/-- A node is read back from its value at every depth that the value fits in. -/
theorem Node.ofJsonWithin?_rearranged {f : Json → Json} (hf : Rearrangement f) :
    (node : Node) → node.isFinite = true → ∀ {depth : Nat}, (f node.toJson).depth ≤ depth →
      Node.ofJsonWithin? depth (f node.toJson) = some node
  | ⟨id, name, kind, bounds, fills, strokes, strokeWeight, cornerRadius, opacity, effects,
      characters, style, visible, locked, layoutMode, sizingMode, constraints, itemSpacing,
      paddingLeft, paddingRight, paddingTop, paddingBottom, children⟩, h, depth, hdepth => by
    simp only [isFinite, areFinite_eq, Bool.and_eq_true, List.all_eq_true, Option.all_eq_true,
      List.mem_cons, List.not_mem_nil, or_false, forall_eq_or_imp, forall_eq] at h
    obtain ⟨⟨⟨⟨⟨⟨hbounds, hfills⟩, hstrokes⟩, hnumbers⟩, heffects⟩, hstyle⟩, hchildren⟩ := h
    obtain ⟨hweight, hradius, hopacity, hspacing, hleft, hright, htop, hbottom⟩ := hnumbers
    generalize hv : Node.toJson ⟨id, name, kind, bounds, fills, strokes, strokeWeight,
      cornerRadius, opacity, effects, characters, style, visible, locked, layoutMode, sizingMode,
      constraints, itemSpacing, paddingLeft, paddingRight, paddingTop, paddingBottom, children⟩ =
      v at hdepth ⊢
    rw [toJson, listToJson_eq] at hv
    obtain ⟨fields, hfields, hvalue⟩ := exists_ofJson? hf fieldNames hv.symm
    cases depth with
    | zero =>
      have hpos := hf.depth_pos hv.symm
      omega
    | succ depth =>
      have hkind : (f (.str kind.word)).word?.map NodeKind.ofWord = some kind := by
        simp [hf.word?]
      have hmode (m : LayoutMode) : (f (.str m.word)).word?.bind LayoutMode.ofWord? = some m := by
        simp [hf.word?]
      have hsizing (m : SizingMode) :
          (f (.str m.word)).word?.bind SizingMode.ofWord? = some m := by simp [hf.word?]
      have hbelow (child : Node) (hchild : child ∈ children) :
          Node.ofJsonWithin? depth (f child.toJson) = some child := by
        have hlevels := hf.depth_add_two_le hv.symm "children" Node.toJson rfl hchild
        exact Node.ofJsonWithin?_rearranged hf child (hchildren child hchild) (by omega)
      unfold ofJsonWithin?
      rw [hfields, Option.bind_eq_bind, Option.bind_some,
        required_eq (hvalue "id" _ rfl) (hf.string? id),
        withDefault_eq (hvalue "name" _ rfl) (hf.string? name),
        withDefault_eq (hvalue "type" _ rfl) hkind,
        nullable_eq hf (hvalue "absoluteBoundingBox" _ rfl) rfl
          fun r hr => Rect.ofJson?_rearranged hf (hbounds r hr),
        withDefault_eq (hvalue "fills" _ rfl)
          (hf.list? fun p hp => Paint.ofJson?_rearranged hf (hfills p hp)),
        withDefault_eq (hvalue "strokes" _ rfl)
          (hf.list? fun p hp => Paint.ofJson?_rearranged hf (hstrokes p hp)),
        nullable_eq hf (hvalue "strokeWeight" _ rfl) rfl fun x hx => hf.float? (hweight x hx),
        nullable_eq hf (hvalue "cornerRadius" _ rfl) rfl fun x hx => hf.float? (hradius x hx),
        nullable_eq hf (hvalue "opacity" _ rfl) rfl fun x hx => hf.float? (hopacity x hx),
        withDefault_eq (hvalue "effects" _ rfl)
          (hf.list? fun e he => Effect.ofJson?_rearranged hf (heffects e he)),
        nullable_eq hf (hvalue "characters" _ rfl) rfl fun s _ => hf.string? s,
        nullable_eq hf (hvalue "style" _ rfl) rfl
          fun s hs => TypeStyle.ofJson?_rearranged hf (hstyle s hs),
        nullable_eq hf (hvalue "visible" _ rfl) rfl fun b _ => hf.bool? b,
        nullable_eq hf (hvalue "locked" _ rfl) rfl fun b _ => hf.bool? b,
        nullable_eq hf (hvalue "layoutMode" _ rfl) rfl fun m _ => hmode m,
        nullable_eq hf (hvalue "primaryAxisSizingMode" _ rfl) rfl fun m _ => hsizing m,
        nullable_eq hf (hvalue "constraints" _ rfl) rfl
          fun c _ => Constraints.ofJson?_rearranged hf c,
        nullable_eq hf (hvalue "itemSpacing" _ rfl) rfl fun x hx => hf.float? (hspacing x hx),
        nullable_eq hf (hvalue "paddingLeft" _ rfl) rfl fun x hx => hf.float? (hleft x hx),
        nullable_eq hf (hvalue "paddingRight" _ rfl) rfl fun x hx => hf.float? (hright x hx),
        nullable_eq hf (hvalue "paddingTop" _ rfl) rfl fun x hx => hf.float? (htop x hx),
        nullable_eq hf (hvalue "paddingBottom" _ rfl) rfl fun x hx => hf.float? (hbottom x hx),
        withDefault_eq (hvalue "children" _ rfl) (hf.list? hbelow)]
      rfl
termination_by node => sizeOf node
decreasing_by
  have := List.sizeOf_lt_of_mem hchild
  simp only [Node.mk.sizeOf_spec]
  omega

/-- **Reading back a written node is the identity**, whatever is present and absent in it and in
the nodes below it, if all numbers are finite: from the value as it is written, and from the value
with the fields of its objects in ascending order. -/
theorem Node.ofJson?_toJson {node : Node} (h : node.isFinite = true) :
    Node.ofJson? node.toJson = some node ∧ Node.ofJson? node.toJson.canonical = some node :=
  ⟨Node.ofJsonWithin?_rearranged Json.rearrangement_id node h (Nat.le_refl _),
    Node.ofJsonWithin?_rearranged Json.rearrangement_canonical node h (Nat.le_refl _)⟩

namespace Sticker

/-- A text without paints, whose style says nothing. -/
def caption : Node :=
  { (default : Node) with
    id := "7:2", kind := .text, opacity := some (-0.0), characters := some "",
    style := some ⟨none, none, none, none⟩, visible := some false }

/-- A node of an unknown kind with an unknown paint and an unknown effect, and a text in it. -/
def node : Node :=
  ⟨"7:1", "Sticker", .other, some ⟨-12.5, 0.0, 1e21, 1e-7⟩,
    [⟨.other, false, 0.25, some ⟨0.1, 0.2, 0.3, 1.0⟩, none⟩,
      ⟨.image, true, 1.0, none, some "7f3a"⟩],
    [], some 1.5, none, none, [⟨.other, true, none, some ⟨0.0, 4.0⟩, 12.0, 0.0⟩], none, none,
    none, some true, some .none, some .auto, some ⟨.scale, .other⟩, none, some 8.0, none, none,
    none, [caption]⟩

end Sticker

theorem Node.ofJson?_toJson_sticker :
    Sticker.node.isFinite = true ∧ Node.ofJson? Sticker.node.toJson = some Sticker.node ∧
      Node.ofJson? Sticker.node.toJson.canonical = some Sticker.node :=
  have hfinite : Sticker.node.isFinite = true := by decide +kernel
  ⟨hfinite, Node.ofJson?_toJson hfinite⟩

end DesignCompiler.Design
