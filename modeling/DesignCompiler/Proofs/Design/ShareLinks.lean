import DesignCompiler.Design.Reference
import DesignCompiler.Proofs.Text.Words
import Mathlib.Data.List.Basic

/-!
# Share links

A share link has the key of a document and may have the identifier of a node in its query. Reading
it cuts at the question mark, at slashes, at ampersands and at equals signs, and then puts the
colons of the identifier back. The key and the title are free to be one of the words that mark a
key, parameters may go without an equals sign and the identifier may have some (`ofText_link`).

Of the parts of a link only two can lose something when the text is trimmed: the site its blanks
in front, and the last parameter those at its end. Neither moves a place where the text is cut.
-/

namespace DesignCompiler.Design.Reference

open Text (splitAt splitFirst joinWith trim trimStart trimEnd isBlank)

/-! ## Node identifiers -/

/-- How a node identifier may be written in a link: a colon as itself, as a hyphen or as `%3A`,
and every other character as itself. -/
inductive Encodes : List Char → List Char → Prop
  | nil : Encodes [] []
  | same (c : Char) {id value : List Char} (h : Encodes id value) : Encodes (c :: id) (c :: value)
  | hyphen {id value : List Char} (h : Encodes id value) : Encodes (':' :: id) ('-' :: value)
  | percent {id value : List Char} (h : Encodes id value) :
    Encodes (':' :: id) ("%3A".toList ++ value)

section Decoding

variable {id value : List Char} {c : Char}

theorem decodeNodeId_cons (hhyphen : c ≠ '-') (hpercent : c ≠ '%') :
    decodeNodeId (c :: value) = c :: decodeNodeId value := by
  unfold decodeNodeId
  rw [show "%3A".toList = ['%', '3', 'A'] from rfl, Text.replace_cons_of_ne hpercent,
    Text.replace_cons_of_ne hhyphen]

theorem decodeNodeId_hyphen : decodeNodeId ('-' :: value) = ':' :: decodeNodeId value := by
  unfold decodeNodeId
  rw [show "%3A".toList = ['%', '3', 'A'] from rfl, Text.replace_cons_of_ne (by decide)]
  exact Text.replace_append (List.cons_ne_nil '-' [])

theorem decodeNodeId_percent :
    decodeNodeId ("%3A".toList ++ value) = ':' :: decodeNodeId value := by
  unfold decodeNodeId
  rw [Text.replace_append (by decide), List.singleton_append, Text.replace_cons_of_ne (by decide)]

/-- Whichever way the colons of an identifier are written, they are put back. -/
theorem Encodes.decodeNodeId_eq (h : Encodes id value) (hhyphen : '-' ∉ id)
    (hpercent : '%' ∉ id) :
    decodeNodeId value = id := by
  induction h with
  | nil => rfl
  | same c h ih =>
    rw [List.mem_cons, not_or] at hhyphen hpercent
    rw [decodeNodeId_cons (Ne.symm hhyphen.1) (Ne.symm hpercent.1), ih hhyphen.2 hpercent.2]
  | hyphen h ih =>
    rw [decodeNodeId_hyphen,
      ih (List.not_mem_of_not_mem_cons hhyphen) (List.not_mem_of_not_mem_cons hpercent)]
  | percent h ih =>
    rw [decodeNodeId_percent,
      ih (List.not_mem_of_not_mem_cons hhyphen) (List.not_mem_of_not_mem_cons hpercent)]

/-- A blank at the end of what is written stands at the end of the identifier. -/
theorem Encodes.getLast?_eq (h : Encodes id value) (hc : c ∈ value.getLast?)
    (hblank : isBlank c = true) :
    c ∈ id.getLast? := by
  induction h with
  | nil => exact hc
  | same d h ih =>
    cases h with
    | nil => exact hc
    | _ => exact ih hc
  | hyphen h ih =>
    cases h with
    | nil =>
      cases hc
      cases hblank
    | _ => exact ih hc
  | percent h ih =>
    cases h with
    | nil =>
      cases hc
      cases hblank
    | _ => exact ih hc

end Decoding

/-! ## Queries -/

/-- The parameter is named `node-id`: this is what stands before its first equals sign. -/
def IsNodeParameter (parameter : List Char) : Prop :=
  "node-id=".toList <+: parameter

instance (parameter : List Char) : Decidable (IsNodeParameter parameter) :=
  inferInstanceAs (Decidable (_ <+: _))

theorem splitFirst_node (value : List Char) :
    splitFirst '=' ("node-id=".toList ++ value) = some ("node-id".toList, value) :=
  Text.splitFirst_append (c := '=') (s := "node-id".toList) (by decide) value

theorem find?_node_eq_none {parameters : List (List Char)}
    (h : ∀ p ∈ parameters, ¬ IsNodeParameter p) :
    (parameters.filterMap (splitFirst '=')).find? (fun p => p.1 == "node-id".toList) = none := by
  rw [List.find?_eq_none]
  rintro ⟨name, value⟩ hmem hname
  obtain ⟨parameter, hparameter, hsplit⟩ := List.mem_filterMap.1 hmem
  rcases Text.splitFirst_spec '=' parameter with ⟨-, hnone⟩ | ⟨a, b, rfl, hsome⟩
  · rw [hnone] at hsplit
    cases hsplit
  · rw [hsome] at hsplit
    cases hsplit
    refine h _ hparameter ⟨value, ?_⟩
    have hname : name = "node-id".toList := beq_iff_eq.1 hname
    rw [hname]
    rfl

section Query

variable {before after : List (List Char)} {value : List Char}

theorem nodeIdOf?_of_first (hsep : ∀ p ∈ before ++ ("node-id=".toList ++ value) :: after, '&' ∉ p)
    (hbefore : ∀ p ∈ before, ¬ IsNodeParameter p) :
    nodeIdOf? (joinWith ['&'] (before ++ ("node-id=".toList ++ value) :: after)) =
      some (decodeNodeId value) := by
  unfold nodeIdOf?
  rw [Text.splitAt_joinWith (by simp) hsep, List.filterMap_append, List.find?_append,
    find?_node_eq_none hbefore, List.filterMap_cons_some (splitFirst_node value)]
  rfl

theorem nodeIdOf?_of_none {parameters : List (List Char)} (hsep : ∀ p ∈ parameters, '&' ∉ p)
    (h : ∀ p ∈ parameters, ¬ IsNodeParameter p) :
    nodeIdOf? (joinWith ['&'] parameters) = none := by
  by_cases hne : parameters = []
  · subst hne
    rfl
  · unfold nodeIdOf?
    rw [Text.splitAt_joinWith hne hsep, find?_node_eq_none h]
    rfl

/-- Trimming brings no ampersand into the last parameter. -/
theorem ampersand_not_mem_trimmed {init : List (List Char)} {last : List Char}
    (hsep : ∀ p ∈ init ++ [last], '&' ∉ p) : ∀ p ∈ init ++ [trimEnd last], '&' ∉ p := by
  rw [List.forall_mem_append, List.forall_mem_singleton] at hsep ⊢
  exact ⟨hsep.1, fun hmem => hsep.2 (Text.mem_of_mem_trimEnd hmem)⟩

/-- White space behind a query is no part of an identifier that does not end in some. -/
theorem nodeIdOf?_trimEnd_of_first
    (hsep : ∀ p ∈ before ++ ("node-id=".toList ++ value) :: after, '&' ∉ p)
    (hbefore : ∀ p ∈ before, ¬ IsNodeParameter p) (hvalue : trimEnd value = value) :
    nodeIdOf? (trimEnd (joinWith ['&'] (before ++ ("node-id=".toList ++ value) :: after))) =
      some (decodeNodeId value) := by
  have hampersand : isBlank '&' = false := by decide
  rcases List.eq_nil_or_concat' after with rfl | ⟨init, last, rfl⟩
  · have hkept : trimEnd ("node-id=".toList ++ value) = "node-id=".toList ++ value := by
      have hequals := Text.trimEnd_append_cons (c := '=') (by decide) "node-id".toList value
      rwa [hvalue] at hequals
    rw [Text.trimEnd_joinWith hampersand, hkept]
    exact nodeIdOf?_of_first hsep hbefore
  · have hassoc (p : List Char) : before ++ ("node-id=".toList ++ value) :: (init ++ [p]) =
        (before ++ ("node-id=".toList ++ value) :: init) ++ [p] := by
      rw [List.append_assoc, List.cons_append]
    rw [hassoc] at hsep ⊢
    have htrimmed := ampersand_not_mem_trimmed hsep
    rw [Text.trimEnd_joinWith hampersand]
    rw [← hassoc] at htrimmed ⊢
    exact nodeIdOf?_of_first htrimmed hbefore

theorem nodeIdOf?_trimEnd_of_none {parameters : List (List Char)}
    (hsep : ∀ p ∈ parameters, '&' ∉ p) (h : ∀ p ∈ parameters, ¬ IsNodeParameter p) :
    nodeIdOf? (trimEnd (joinWith ['&'] parameters)) = none := by
  rcases List.eq_nil_or_concat' parameters with rfl | ⟨init, last, rfl⟩
  · rfl
  · rw [Text.trimEnd_joinWith (by decide)]
    refine nodeIdOf?_of_none (ampersand_not_mem_trimmed hsep) ?_
    rw [List.forall_mem_append, List.forall_mem_singleton] at h ⊢
    refine ⟨h.1, ?_⟩
    intro hnode
    obtain ⟨blanks, hlast⟩ := Text.exists_trimEnd_append last
    exact h.2 (hlast ▸ hnode.trans (List.prefix_append _ blanks))

end Query

/-! ## Keys -/

/-- The words of which a segment of a link marks the next one as the key. -/
def markerWords : List String :=
  ["file", "design", "proto"]

theorem mem_markers {segment : List Char} :
    segment ∈ markers ↔ ∃ word ∈ markerWords, word.toList = segment :=
  List.mem_map (f := String.toList) (l := markerWords)

/-- Behind some segment that is a marker there is another segment. -/
def HasMarkedKey (segments : List (List Char)) : Prop :=
  ∃ before, ∃ word ∈ markerWords, ∃ key after, segments = before ++ word.toList :: key :: after

section Key

variable {before after : List (List Char)} {marker key : List Char}

theorem keyAfterMarker?_append (hbefore : ∀ s ∈ before, s ∉ markers)
    (hmarker : marker ∈ markers) :
    keyAfterMarker? (before ++ marker :: key :: after) = some key := by
  induction before with
  | nil =>
    rw [List.nil_append, keyAfterMarker?, if_pos (List.contains_iff_mem.2 hmarker),
      List.head?_cons]
  | cons s before ih =>
    have hs : s ∉ markers := hbefore s List.mem_cons_self
    rw [List.cons_append, keyAfterMarker?, if_neg fun h => hs (List.contains_iff_mem.1 h),
      ih fun t ht => hbefore t (List.mem_cons_of_mem s ht)]

/-- A marker that is the last segment marks nothing. -/
theorem isSome_keyAfterMarker?_iff {segments : List (List Char)} :
    (keyAfterMarker? segments).isSome ↔ HasMarkedKey segments := by
  constructor
  · intro h
    induction segments with
    | nil => cases h
    | cons s segments ih =>
      rw [keyAfterMarker?] at h
      split at h
      · rename_i hs
        obtain ⟨word, hword, rfl⟩ := mem_markers.1 (List.contains_iff_mem.1 hs)
        cases segments with
        | nil => cases h
        | cons key after => exact ⟨[], word, hword, key, after, rfl⟩
      · obtain ⟨before, word, hword, key, after, rfl⟩ := ih h
        exact ⟨s :: before, word, hword, key, after, rfl⟩
  · rintro ⟨before, word, hword, key, after, rfl⟩
    have hmarker := List.contains_iff_mem.2 (mem_markers.2 ⟨word, hword, rfl⟩)
    induction before with
    | nil =>
      rw [List.nil_append, keyAfterMarker?, if_pos hmarker]
      rfl
    | cons s before ih =>
      rw [List.cons_append, keyAfterMarker?]
      split
      · cases before <;> rfl
      · exact ih

instance (segments : List (List Char)) : Decidable (HasMarkedKey segments) :=
  decidable_of_iff _ isSome_keyAfterMarker?_iff

end Key

/-! ## Texts -/

section OfText

variable {text : String} {path query : List Char}

theorem ofText_of_query (h : trim text.toList = path ++ '?' :: query) (hpath : '?' ∉ path) :
    ofText text =
      ⟨String.ofList ((keyAfterMarker? (splitAt '/' path)).getD path),
        (nodeIdOf? query).map String.ofList⟩ := by
  simp only [ofText, h, Text.splitFirst_append hpath, Option.bind_some]

theorem ofText_of_path (h : trim text.toList = path) (hpath : '?' ∉ path) :
    ofText text = ⟨String.ofList ((keyAfterMarker? (splitAt '/' path)).getD path), none⟩ := by
  simp only [ofText, h, Text.splitFirst_eq_none hpath, Option.bind_none, Option.map_none]

end OfText

/-- The parts of a link before its query. No segment of the site is a marker; white space in front
of the link does not count. -/
structure ShareLink where
  site : String
  marker : String
  key : String
  title : String
  unmarked : ∀ word ∈ markerWords, word.toList ∉ splitAt '/' (trimStart site.toList)
  marker_mem : marker ∈ markerWords
  slash_not_mem_key : '/' ∉ key.toList
  question_not_mem : ∀ part ∈ [site, key, title], '?' ∉ part.toList

namespace ShareLink

/-- The link without a query. -/
def path (link : ShareLink) : String :=
  link.site ++ "/" ++ link.marker ++ "/" ++ link.key ++ "/" ++ link.title

/-- The link with the parameters in its query. -/
def withQuery (link : ShareLink) (parameters : List String) : String :=
  link.path ++ "?" ++ "&".intercalate parameters

variable (link : ShareLink)

/-- What is read of the link's path, whose title may have lost blanks at its end. -/
def trimmedPath (title : List Char) : List Char :=
  trimStart link.site.toList ++
    '/' :: (link.marker.toList ++ '/' :: (link.key.toList ++ '/' :: title))

theorem trim_path : trim link.path.toList = link.trimmedPath (trimEnd link.title.toList) := by
  have hslash : isBlank '/' = false := by decide
  have hpath : link.path.toList =
      link.site.toList ++ '/' ::
        ((link.marker.toList ++ '/' :: link.key.toList) ++ '/' :: link.title.toList) := by
    simp [path]
  rw [hpath, trim, Text.trimStart_append_cons hslash, ← List.cons_append, ← List.append_assoc,
    Text.trimEnd_append_cons hslash]
  simp [trimmedPath]

theorem trim_withQuery (parameters : List String) :
    trim (link.withQuery parameters).toList =
      link.trimmedPath link.title.toList ++
        '?' :: trimEnd (joinWith ['&'] (parameters.map String.toList)) := by
  have htext : (link.withQuery parameters).toList =
      (link.site.toList ++ '/' ::
        (link.marker.toList ++ '/' :: (link.key.toList ++ '/' :: link.title.toList))) ++
        '?' :: joinWith ['&'] (parameters.map String.toList) := by
    simp [withQuery, path, Text.joinWith_eq_intercalate]
  rw [htext, trim, List.append_assoc, List.cons_append, Text.trimStart_append_cons (by decide),
    ← List.cons_append, ← List.append_assoc, Text.trimEnd_append_cons (by decide)]
  rfl

theorem question_not_mem_trimmedPath {title : List Char} (htitle : '?' ∉ title) :
    '?' ∉ link.trimmedPath title := by
  have hmarker : '?' ∉ link.marker.toList := by
    have hwords : ∀ word ∈ markerWords, '?' ∉ word.toList := by decide
    exact hwords link.marker link.marker_mem
  have hsite : '?' ∉ trimStart link.site.toList := fun h =>
    link.question_not_mem link.site (by simp) ((List.dropWhile_sublist isBlank).subset h)
  have hkey := link.question_not_mem link.key (by simp)
  simp [trimmedPath, hmarker, hsite, hkey, htitle]

theorem keyAfterMarker?_trimmedPath (title : List Char) :
    keyAfterMarker? (splitAt '/' (link.trimmedPath title)) = some link.key.toList := by
  have hslash : '/' ∉ link.marker.toList := by
    have hwords : ∀ word ∈ markerWords, '/' ∉ word.toList := by decide
    exact hwords link.marker link.marker_mem
  have hsite : ∀ s ∈ splitAt '/' (trimStart link.site.toList), s ∉ markers := by
    intro s hs hmarker
    obtain ⟨word, hword, rfl⟩ := mem_markers.1 hmarker
    exact link.unmarked word hword hs
  rw [trimmedPath, Text.splitAt_append_cons, Text.splitAt_append_cons, Text.splitAt_append_cons,
    Text.splitAt_eq_self hslash, Text.splitAt_eq_self link.slash_not_mem_key]
  exact keyAfterMarker?_append hsite (mem_markers.2 ⟨link.marker, link.marker_mem, rfl⟩)

theorem ofText_path : ofText link.path = ⟨link.key, none⟩ := by
  have hquestion : '?' ∉ link.trimmedPath (trimEnd link.title.toList) :=
    link.question_not_mem_trimmedPath fun h =>
      link.question_not_mem link.title (by simp) (Text.mem_of_mem_trimEnd h)
  rw [ofText_of_path link.trim_path hquestion, keyAfterMarker?_trimmedPath, Option.getD_some,
    String.ofList_toList]

theorem ofText_withQuery (parameters : List String) :
    ofText (link.withQuery parameters) =
      ⟨link.key, (nodeIdOf? (trimEnd (joinWith ['&'] (parameters.map String.toList)))).map
        String.ofList⟩ := by
  have hquestion : '?' ∉ link.trimmedPath link.title.toList :=
    link.question_not_mem_trimmedPath (link.question_not_mem link.title (by simp))
  rw [ofText_of_query (link.trim_withQuery parameters) hquestion, keyAfterMarker?_trimmedPath,
    Option.getD_some, String.ofList_toList]

end ShareLink

/-! ## What is read -/

/-- The identifiers that survive decoding and trimming. There is no ampersand in them either,
since there is none in a parameter. -/
structure IsNodeId (id : List Char) : Prop where
  hyphen_not_mem : '-' ∉ id
  percent_not_mem : '%' ∉ id
  getLast?_not_blank : ∀ c ∈ id.getLast?, isBlank c = false

theorem Encodes.trimEnd_eq {id value : List Char} (h : Encodes id value) (hid : IsNodeId id) :
    trimEnd value = value := by
  refine Text.trimEnd_eq_self ?_
  intro c hc
  by_contra hblank
  rw [Bool.not_eq_false] at hblank
  have hlast := hid.getLast?_not_blank c (h.getLast?_eq hc hblank)
  rw [hblank] at hlast
  cases hlast

/-- The parameters of a query with the identifier in them: that of the first parameter named
`node-id`, and none without such a parameter. -/
inductive Carries : List String → Option String → Prop
  | first (before : List String) (value : String) (after : List String) {id : String}
      (hbefore : ∀ p ∈ before, ¬ IsNodeParameter p.toList) (hid : IsNodeId id.toList)
      (hvalue : Encodes id.toList value.toList) :
      Carries (before ++ ("node-id=" ++ value) :: after) (some id)
  | none {parameters : List String} (h : ∀ p ∈ parameters, ¬ IsNodeParameter p.toList) :
      Carries parameters none

theorem Carries.nodeIdOf?_eq {parameters : List String} {nodeId : Option String}
    (h : Carries parameters nodeId) (hsep : ∀ p ∈ parameters, '&' ∉ p.toList) :
    nodeIdOf? (trimEnd (joinWith ['&'] (parameters.map String.toList))) =
      nodeId.map String.toList := by
  have hsep : ∀ p ∈ parameters.map String.toList, '&' ∉ p := List.forall_mem_map.2 hsep
  cases h with
  | first before value after hbefore hid hvalue =>
    rw [List.map_append, List.map_cons, String.toList_append] at hsep ⊢
    rw [nodeIdOf?_trimEnd_of_first hsep (List.forall_mem_map.2 hbefore) (hvalue.trimEnd_eq hid),
      hvalue.decodeNodeId_eq hid.hyphen_not_mem hid.percent_not_mem]
    rfl
  | none h => exact nodeIdOf?_trimEnd_of_none hsep (List.forall_mem_map.2 h)

/-- A link is read back as the key and the identifier it was made of, and a text that is no link
is a key. -/
theorem ofText_link :
    (∀ (link : ShareLink) (parameters : List String) (nodeId : Option String),
      (∀ p ∈ parameters, '&' ∉ p.toList) →
      Carries parameters nodeId → ofText (link.withQuery parameters) = ⟨link.key, nodeId⟩) ∧
    (∀ link : ShareLink, ofText link.path = ⟨link.key, none⟩) ∧
    ∀ text : String, trim text.toList = text.toList → '?' ∉ text.toList →
      ¬ HasMarkedKey (splitAt '/' text.toList) → ofText text = ⟨text, none⟩ := by
  refine ⟨?_, ShareLink.ofText_path, ?_⟩
  · intro link parameters nodeId hsep hcarries
    rw [link.ofText_withQuery, hcarries.nodeIdOf?_eq hsep, Option.map_map]
    cases nodeId with
    | none => rfl
    | some id => simp
  · intro text htrim hquestion hmarked
    have hkey : keyAfterMarker? (splitAt '/' text.toList) = none := by
      rwa [← isSome_keyAfterMarker?_iff, Option.not_isSome_iff_eq_none] at hmarked
    rw [ofText_of_path htrim hquestion, hkey, Option.getD_none, String.ofList_toList]

/-- The link `https://example.com/design/AbC123/proto/Checkout`, whose title starts with a
marker. -/
def checkoutLink : ShareLink where
  site := "https://example.com"
  marker := "design"
  key := "AbC123"
  title := "proto/Checkout"
  unmarked := by decide
  marker_mem := by decide
  slash_not_mem_key := by decide
  question_not_mem := by decide

theorem carries_checkout :
    Carries ["t", "node=id", "node-id=1-1%3A2:x=3", "node-id=4"] (some "1:1:2:x=3") := by
  refine Carries.first ["t", "node=id"] "1-1%3A2:x=3" ["node-id=4"] (by decide) ?_ ?_
  · exact ⟨by decide, by decide, by decide⟩
  · exact .same '1' (.hyphen
      (.same '1' (.percent (.same '2' (.same ':' (.same 'x' (.same '=' (.same '3' .nil))))))))

theorem ofText_link_checkout :
    ofText (checkoutLink.withQuery ["t", "node=id", "node-id=1-1%3A2:x=3", "node-id=4"]) =
        ⟨"AbC123", some "1:1:2:x=3"⟩ ∧
      ofText (checkoutLink.withQuery ["t", "node=id"]) = ⟨"AbC123", none⟩ ∧
      ofText "AbC123/file" = ⟨"AbC123/file", none⟩ := by
  refine ⟨?_, ?_, ?_⟩
  · exact ofText_link.1 checkoutLink _ _ (by decide) carries_checkout
  · exact ofText_link.1 checkoutLink ["t", "node=id"] none (by decide) (.none (by decide))
  · exact ofText_link.2.2 "AbC123/file" (by decide) (by decide) (by decide)

end DesignCompiler.Design.Reference
