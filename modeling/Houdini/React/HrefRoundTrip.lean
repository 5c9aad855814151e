import Houdini.React.HrefCapture

/-! Links to a page are read back by the page. -/

set_option autoImplicit false

namespace Houdini.React

open Url (parseForm serializeForm parseForm_serializeForm serializeForm_cons formEntry_ne_nil)

variable {numbers : Numbers}

theorem parseScalar_marshalValue {value : ScalarValue numbers} {type : ScalarType}
    (typed : value.HasType type) : parseScalar type (marshalValue value) = some value := by
  cases value with
  | boolean value =>
      cases typed
      cases value <;> rfl
  | text value => rcases typed with rfl | rfl <;> rfl
  | number value =>
      rcases typed with ⟨rfl, isInt⟩ | rfl
      · rw [marshalValue, parseScalar, numbers.parseInt_print value isInt]
        rfl
      · rw [marshalValue, parseScalar, numbers.parseFloat_print value]
        rfl

theorem eq_text_of_marshalValue_nil {value : ScalarValue numbers}
    (empty : marshalValue value = []) : value = .text [] := by
  cases value with
  | boolean value => cases value <;> cases empty
  | text value => exact congrArg _ empty
  | number value => exact absurd empty (numbers.print_ne_nil value)

def LinkedPage.typeOf (page : LinkedPage) (name : UrlText) : ScalarType :=
  (page.documents.flatten.reverse.lookup name).getD .string

def parsedVariable (type : ScalarType) (text : UrlText) : Variable numbers :=
  match parseScalar type text with
  | some value => .single value
  | none => .undefined

section

variable {matched : OrderedMap UrlText UrlText} {vars : Variables numbers} {name : UrlText}
  {declared : UrlText × ScalarType}

theorem get?_setVariable_of_ne (other : name ≠ declared.1) (value : Variable numbers) :
    (setVariable vars declared.1 value).get? name = vars.get? name := by
  unfold setVariable
  split
  · rfl
  · exact OrderedMap.get?_set_of_ne _ _ other

theorem get?_parseVariable_of_ne (other : name ≠ declared.1) :
    (parseVariable matched vars declared).get? name = vars.get? name := by
  unfold parseVariable
  split
  · rfl
  · exact get?_setVariable_of_ne other _
  · split
    · exact get?_setVariable_of_ne other _
    · rfl

theorem parseVariable_of_absent (absent : matched.get? declared.1 = none)
    (own : declared.1 ∉ inheritedNames) : parseVariable matched vars declared = vars := by
  rw [parseVariable, absent]
  simp only [List.contains_eq_mem, own, decide_false, Bool.false_eq_true, if_false]

theorem get?_parseVariable_self {char : Char} {rest : UrlText} (notProto : declared.1 ≠ protoName)
    (present : matched.get? declared.1 = some (char :: rest)) :
    (parseVariable matched vars declared).get? declared.1 =
      some (parsedVariable declared.2 (char :: rest)) := by
  rw [parseVariable, present]
  change (setVariable vars declared.1 (parsedVariable declared.2 (char :: rest))).get? _ = _
  rw [setVariable, if_neg notProto, OrderedMap.get?_set_self]

theorem get?_foldl_parseVariable {char : Char} {rest : UrlText} (notProto : name ≠ protoName)
    (present : matched.get? name = some (char :: rest))
    (declarations : List (UrlText × ScalarType)) (vars : Variables numbers) :
    (declarations.foldl (parseVariable matched) vars).get? name =
      match declarations.reverse.lookup name with
      | some type => some (parsedVariable type (char :: rest))
      | none => vars.get? name := by
  induction declarations generalizing vars with
  | nil => rfl
  | cons declared others ih =>
      rw [List.foldl_cons, ih, List.reverse_cons, List.lookup_append]
      cases later : others.reverse.lookup name with
      | some type => rfl
      | none =>
          rw [Option.none_or]
          by_cases same : name = declared.1
          · rw [same] at present notProto
            rw [List.lookup_cons, same, beq_self_eq_true]
            exact get?_parseVariable_self notProto present
          · have other : (name == declared.1) = false := beq_eq_false_iff_ne.mpr same
            rw [List.lookup_cons, other]
            exact get?_parseVariable_of_ne same

theorem get?_foldl_parseVariable_of_absent {declarations : List (UrlText × ScalarType)}
    (absent : matched.get? name = none)
    (own : ∀ declared ∈ declarations, declared.1 = name → name ∉ inheritedNames)
    (vars : Variables numbers) :
    (declarations.foldl (parseVariable matched) vars).get? name = vars.get? name := by
  induction declarations generalizing vars with
  | nil => rfl
  | cons declared others ih =>
      rw [List.forall_mem_cons] at own
      rw [List.foldl_cons, ih own.2]
      by_cases same : name = declared.1
      · rw [same] at absent own ⊢
        rw [parseVariable_of_absent absent (own.1 rfl)]
      · exact get?_parseVariable_of_ne same

theorem get?_foldl_parseVariable_of_empty (empty : matched.get? name = some [])
    (declarations : List (UrlText × ScalarType)) (vars : Variables numbers) :
    (declarations.foldl (parseVariable matched) vars).get? name = vars.get? name := by
  induction declarations generalizing vars with
  | nil => rfl
  | cons declared others ih =>
      rw [List.foldl_cons, ih]
      by_cases same : name = declared.1
      · rw [same] at empty ⊢
        rw [parseVariable, empty]
      · exact get?_parseVariable_of_ne same

end

section

variable {entries : List (UrlText × UrlText)} {vars : Variables numbers} {name : UrlText}
  {param : SearchParam} {searchParams : List SearchParam}

theorem get?_fillParam_of_ne (other : name ≠ param.name) :
    (fillParam entries vars param).get? name = vars.get? name := by
  have kept (value : Variable numbers) :
      (setVariable vars param.name value).get? name = vars.get? name :=
    @get?_setVariable_of_ne _ _ _ (param.name, param.type) other value
  unfold fillParam
  split
  · rfl
  · split
    · rfl
    · split
      · exact kept _
      · split
        · exact kept _
        · rfl

theorem get?_foldl_fillParam_of_not_mem
    (absent : name ∉ searchParams.map SearchParam.name) (vars : Variables numbers) :
    (searchParams.foldl (fillParam entries) vars).get? name = vars.get? name := by
  induction searchParams generalizing vars with
  | nil => rfl
  | cons param rest ih =>
      rw [List.map_cons, List.mem_cons, not_or] at absent
      rw [List.foldl_cons, ih absent.2, get?_fillParam_of_ne absent.1]

theorem get?_foldl_fillParam (unique : (searchParams.map SearchParam.name).Nodup)
    (member : param ∈ searchParams) (vars : Variables numbers) :
    ∃ before : Variables numbers, before.get? param.name = vars.get? param.name ∧
      (searchParams.foldl (fillParam entries) vars).get? param.name =
        (fillParam entries before param).get? param.name := by
  induction searchParams generalizing vars with
  | nil => cases member
  | cons first rest ih =>
      rw [List.map_cons, List.nodup_cons] at unique
      rw [List.foldl_cons]
      rcases List.mem_cons.mp member with rfl | later
      · exact ⟨vars, rfl, get?_foldl_fillParam_of_not_mem unique.1 _⟩
      · have other : param.name ≠ first.name := by
          intro same
          exact unique.1 (same ▸ List.mem_map_of_mem later)
        obtain ⟨before, reads, filled⟩ := ih unique.2 later (fillParam entries vars first)
        exact ⟨before, reads.trans (get?_fillParam_of_ne other), filled⟩

theorem isSet_eq_false (absent : vars.get? name = none) (own : name ∉ inheritedNames) :
    isSet vars name = false := by
  rw [isSet, absent]
  simp only [List.contains_eq_mem, own, decide_false]

end

theorem getAll_append (first second : List (UrlText × UrlText)) (name : UrlText) :
    getAll (first ++ second) name = getAll first name ++ getAll second name := by
  rw [getAll, List.filter_append, List.map_append]
  rfl

theorem getAll_map (texts : List UrlText) (key name : UrlText) :
    getAll (texts.map fun text => (key, text)) name = if key = name then texts else [] := by
  induction texts with
  | nil => rw [ite_self]; rfl
  | cons text rest ih =>
      have one : getAll [(key, text)] name = if key = name then [text] else [] := by
        rw [getAll, List.filter_singleton]
        by_cases same : key = name
        · simp [same]
        · simp [same]
      have whole := getAll_append [(key, text)] (rest.map fun text => (key, text)) name
      rw [one, ih] at whole
      refine whole.trans ?_
      split <;> rfl

theorem getAll_searchEntries_eq (entries : List (UrlText × SearchValue numbers)) (name : UrlText) :
    getAll (searchEntries entries) name =
      (entries.filter (·.1 = name)).flatMap fun entry => entry.2.texts := by
  induction entries with
  | nil => rfl
  | cons entry rest ih =>
      have split : searchEntries (entry :: rest) =
          (entry.2.texts.map fun text => (entry.1, text)) ++ searchEntries rest := rfl
      rw [split, getAll_append, getAll_map, ih]
      by_cases same : entry.1 = name
      · simp [same]
      · simp [same]

theorem getAll_searchEntries (search : OrderedMap UrlText (SearchValue numbers)) (name : UrlText) :
    getAll (searchEntries search.entries) name =
      ((search.get? name).map SearchValue.texts).getD [] := by
  rw [getAll_searchEntries_eq, OrderedMap.filter_key_eq]
  cases search.get? name with
  | none => rfl
  | some value => exact List.append_nil _

/-- A page that is linked to. The manifest has each parameter of the query once, and none that is
in the path. -/
structure LinkedRoute extends LinkedPage where
  plain : ∀ segment ∈ dir.segments, segment.IsPlain
  search_nodup : (searchParams.map SearchParam.name).Nodup
  search_apart : ∀ param ∈ searchParams, param.name ∉ routeNames dir.segments

def LinkedRoute.names (route : LinkedRoute) : List UrlText := routeNames route.dir.segments

def SearchValue.HasType (param : SearchParam) : SearchValue numbers → Prop
  | .absent => True
  | .scalar value => param.isList = false ∧ value.HasType param.type
  | .list values => param.isList = true ∧ ∀ value, some value ∈ values → value.HasType param.type

/-- Values for everything that a link to a page can say. -/
structure Assignment (numbers : Numbers) (route : LinkedRoute) where
  params : UrlText → ScalarValue numbers
  search : OrderedMap UrlText (SearchValue numbers)
  params_typed : ∀ name ∈ route.names, (params name).HasType (route.typeOf name)
  params_filled : ∀ segment ∈ route.dir.segments, ∀ name,
    segment = .param name ∨ segment = .optional name → valueText params name ≠ []
  search_typed : ∀ name value, search.get? name = some value →
    ∃ param ∈ route.searchParams, param.name = name ∧ value.HasType param

def Gives : Option (Variable numbers) → Option (SearchValue numbers) → Prop
  | read, none => read = none ∨ read = some .undefined
  | read, some .absent => read = none ∨ read = some .undefined
  | read, some (.scalar value) => read = some (.single value)
  | read, some (.list values) => ∃ kept, read = some (.list kept) ∧ values = kept.map some

namespace Assignment

variable {route : LinkedRoute} (assignment : Assignment numbers route)

def href : UrlText :=
  buildHref (stripRouteGroups route.dir.page.url) (some fun name => some (assignment.params name))
    (some assignment.search.entries)

def RoundTrips (isPrint : Char → Bool) (malformed : ByteArray → UrlText) : Prop :=
  route.dir.pattern.isLiteral = true ∧
    ∃ vars : Variables numbers,
      findVariables isPrint malformed route.toLinkedPage assignment.href = .ok (some vars) ∧
      (∀ name ∈ route.names, vars.get? name = some (.single (assignment.params name))) ∧
      ∀ name ∉ route.names, Gives (vars.get? name) (assignment.search.get? name)

/-- Values that urls can carry as they are. -/
structure Legible : Prop where
  statics : ∀ text, .fixed text ∈ route.dir.segments →
    '?' ∉ text ∧ ∀ char ∈ text, isLineTerminator char = false
  proto : protoName ∉ route.names
  own : ∀ name ∈ inheritedNames, name ∉ route.names →
    (∀ declared ∈ route.documents.flatten, declared.1 ≠ name) ∧
      ∀ param ∈ route.searchParams, param.name ≠ name
  values : ∀ name ∈ route.names,
    '%' ∉ valueText assignment.params name ∧ '?' ∉ valueText assignment.params name
  brackets : ∀ segment ∈ route.dir.segments, BracketFree assignment.params segment
  fits : Fits (valueText assignment.params) route.dir.segments
  lists : ∀ name values, assignment.search.get? name = some (.list values) →
    values ≠ [] ∧ none ∉ values

variable {assignment}

theorem href_eq (brackets : ∀ segment ∈ route.dir.segments,
    BracketFree assignment.params segment) :
    assignment.href = route.dir.urlWith (valueText assignment.params) ++
      serializeSearch assignment.search.entries := by
  rw [href, buildHref]
  exact congrArg (· ++ _) (resolveHref_page route.plain brackets)

theorem serializeSearch_eq (search : List (UrlText × SearchValue numbers)) :
    serializeSearch search = [] ∧ serializeForm (searchEntries search) = [] ∨
      serializeSearch search = '?' :: serializeForm (searchEntries search) ∧
        serializeForm (searchEntries search) ≠ [] := by
  rw [serializeSearch]
  by_cases none : serializeForm (searchEntries search) = []
  · exact Or.inl ⟨if_pos none, none⟩
  · exact Or.inr ⟨if_neg none, none⟩

theorem serializeForm_eq_nil {entries : List (UrlText × UrlText)} :
    serializeForm entries = [] ↔ entries = [] := by
  constructor
  · intro none
    cases entries with
    | nil => rfl
    | cons entry rest =>
        obtain ⟨behind, same⟩ := serializeForm_cons entry rest
        rw [same, List.append_eq_nil_iff] at none
        exact absurd none.1 (formEntry_ne_nil entry)
  · rintro rfl
    rfl

theorem path_append {url : UrlText} (plain : '?' ∉ url)
    (search : List (UrlText × SearchValue numbers)) :
    (url ++ serializeSearch search).takeWhile (· ≠ '?') = url ∧
      ((url ++ serializeSearch search).dropWhile (· ≠ '?')).drop 1 =
        serializeForm (searchEntries search) := by
  have clean : ∀ char ∈ url, decide (char ≠ '?') = true := fun char member =>
    decide_eq_true fun same => plain (same ▸ member)
  rw [List.takeWhile_append_of_pos clean, List.dropWhile_append_of_pos clean]
  rcases serializeSearch_eq search with ⟨same, none⟩ | ⟨same, _⟩
  · rw [same, none]
    exact ⟨List.append_nil _, rfl⟩
  · rw [same, List.takeWhile_cons_of_neg (by decide), List.dropWhile_cons_of_neg (by decide)]
    exact ⟨List.append_nil _, rfl⟩

theorem captures_urlWith {dir : RouteDir} {values : UrlText → UrlText}
    (filled : ∀ segment ∈ dir.segments, ∀ name, segment = .param name ∨ segment = .optional name →
      values name ≠ []) (fits : Fits values dir.segments) :
    dir.pattern.captures (dir.urlWith values) = some (givenValues values dir.segments) := by
  have captured := captureSegments_filledPath filled fits
  rw [pattern_eq]
  split
  · next root =>
      rw [RouteDir.urlWith, segments_eq_nil_of_root root]
      rfl
  · rw [PagePattern.captures, RouteDir.urlWith]
    split
    · next none =>
        rw [none]
        rfl
    · exact captured

theorem question_not_mem (statics : ∀ text, .fixed text ∈ route.dir.segments → '?' ∉ text)
    (values : ∀ name ∈ route.names, '?' ∉ valueText assignment.params name) :
    '?' ∉ route.dir.urlWith (valueText assignment.params) := by
  have named {segment : RouteSegment} {param : RouteParam} (member : segment ∈ route.dir.segments)
      (isParam : segment.param? = some param) : param.name ∈ route.names :=
    List.mem_map_of_mem (List.mem_filterMap.mpr ⟨segment, member, isParam⟩)
  rw [RouteDir.urlWith]
  split
  · decide
  · intro member
    obtain ⟨segment, among, inside⟩ := List.mem_flatMap.mp member
    rcases List.mem_cons.mp inside with slash | inside
    · exact absurd slash (by decide)
    · cases segment with
      | fixed text => exact statics text among inside
      | param name => exact values name (named among rfl) inside
      | optional name => exact values name (named among rfl) inside
      | rest name => exact values name (named among rfl) inside

theorem get?_parseVariables {matched : OrderedMap UrlText UrlText}
    (proto : protoName ∉ route.names)
    (own : ∀ name ∈ inheritedNames, name ∉ route.names →
      ∀ declared ∈ route.documents.flatten, declared.1 ≠ name)
    (reads : ∀ name, matched.get? name =
      if name ∈ route.names then some (valueText assignment.params name) else none) (name : UrlText) :
    (@parseVariables numbers route.documents matched).get? name =
      if name ∈ route.names then some (.single (assignment.params name)) else none := by
  have start : (matched.mapValues fun _ text => @Variable.single numbers (.text text)).get?
      name = (matched.get? name).map fun text => .single (.text text) :=
    OrderedMap.get?_mapValues _ _ _
  rw [parseVariables]
  by_cases member : name ∈ route.names
  · have present := reads name
    rw [if_pos member] at present ⊢
    have typed := assignment.params_typed name member
    cases text : valueText assignment.params name with
    | nil =>
        rw [text] at present
        rw [get?_foldl_parseVariable_of_empty present, start, present,
          eq_text_of_marshalValue_nil text]
        rfl
    | cons char rest =>
        rw [text] at present
        have notProto : name ≠ protoName := fun same => proto (same ▸ member)
        rw [get?_foldl_parseVariable notProto present, start, present, ← text]
        unfold LinkedPage.typeOf at typed
        cases declared : route.documents.flatten.reverse.lookup name with
        | none =>
            rw [declared] at typed
            cases value : assignment.params name with
            | boolean own => rw [value] at typed; cases typed
            | text own =>
                have same : valueText assignment.params name = own := by rw [valueText, value]; rfl
                rw [same]
                rfl
            | number own =>
                rw [value] at typed
                rcases typed with ⟨other, _⟩ | other <;> cases other
        | some type =>
            rw [declared] at typed
            have parsed := parseScalar_marshalValue typed
            rw [Option.getD_some] at parsed
            simp only [parsedVariable, valueText, parsed]
  · have absent := reads name
    rw [if_neg member] at absent ⊢
    rw [get?_foldl_parseVariable_of_absent absent, start, absent]
    · rfl
    · exact fun declared among same inherited => own name inherited member declared among same

theorem exists_map_some {values : List (Option (ScalarValue numbers))} (noNull : none ∉ values) :
    ∃ kept : List (ScalarValue numbers), values = kept.map some := by
  induction values with
  | nil => exact ⟨[], rfl⟩
  | cons entry rest ih =>
      rw [List.mem_cons, not_or] at noNull
      obtain ⟨kept, rfl⟩ := ih noNull.2
      cases entry with
      | none => exact absurd rfl noNull.1
      | some value => exact ⟨value :: kept, rfl⟩

theorem gives_fillParam {vars : Variables numbers} {param : SearchParam}
    (absent : vars.get? param.name = none) (own : param.name ∉ inheritedNames)
    (typed : ∀ value, assignment.search.get? param.name = some value → value.HasType param)
    (lists : ∀ values, assignment.search.get? param.name = some (.list values) →
      values ≠ [] ∧ none ∉ values) :
    Gives ((fillParam (searchEntries assignment.search.entries) vars param).get? param.name)
      (assignment.search.get? param.name) := by
  have notProto : param.name ≠ protoName := by
    rintro same
    rw [same] at own
    exact own (by decide)
  have stored (value : Variable numbers) :
      (setVariable vars param.name value).get? param.name = some value := by
    rw [setVariable, if_neg notProto, OrderedMap.get?_set_self]
  rw [fillParam, isSet_eq_false absent own, if_neg Bool.false_ne_true, getAll_searchEntries]
  cases given : assignment.search.get? param.name with
  | none => exact Or.inl absent
  | some value =>
      have hasType := typed value given
      cases value with
      | absent => exact Or.inl absent
      | scalar value =>
          obtain ⟨single, ofType⟩ := hasType
          have parsed := parseScalar_marshalValue ofType
          simp only [Option.map_some, SearchValue.texts, Option.getD_some, single,
            Bool.false_eq_true, if_false, parsed]
          exact stored _
      | list values =>
          obtain ⟨isList, ofType⟩ := hasType
          obtain ⟨nonempty, noNull⟩ := lists values given
          obtain ⟨kept, rfl⟩ := exists_map_some noNull
          have texts : (SearchValue.list (kept.map some)).texts = kept.map marshalValue := by
            rw [SearchValue.texts, List.filterMap_map]
            exact congrFun List.filterMap_eq_map kept
          have parsed : (kept.map marshalValue).filterMap (parseScalar param.type) = kept := by
            rw [List.filterMap_map]
            refine (List.filterMap_congr fun value member => ?_).trans List.filterMap_some
            exact parseScalar_marshalValue (ofType value (List.mem_map_of_mem member))
          rw [Option.map_some, Option.getD_some, texts]
          cases kept with
          | nil => exact absurd rfl nonempty
          | cons first others =>
              rw [List.map_cons] at parsed ⊢
              simp only [isList, if_true, parsed]
              exact ⟨_, stored _, rfl⟩

theorem foldl_fillParam_nil (searchParams : List SearchParam) (vars : Variables numbers) :
    searchParams.foldl (fillParam []) vars = vars := by
  induction searchParams with
  | nil => rfl
  | cons param rest ih =>
      have same : fillParam [] vars param = vars := by
        rw [fillParam]
        split <;> rfl
      rw [List.foldl_cons, same, ih]

theorem Legible.roundTrips (legible : assignment.Legible) (isPrint : Char → Bool)
    (malformed : ByteArray → UrlText) : assignment.RoundTrips isPrint malformed := by
  have literal : route.dir.pattern.isLiteral = true :=
    (isLiteral_iff _).mpr fun text member => (legible.statics text member).2
  have plain : '?' ∉ route.dir.urlWith (valueText assignment.params) :=
    question_not_mem (fun text member => (legible.statics text member).1)
      fun name member => (legible.values name member).2
  obtain ⟨path, query⟩ := path_append plain assignment.search.entries
  obtain ⟨matched, ran, reads⟩ := exec_givenValues
    (fun name member => (legible.values name member).1) legible.proto
  have found : findMatch [route.dir.page.routerPage isPrint] assignment.href =
      .ok (some (route.dir.page.routerPage isPrint, matched)) := by
    refine Routes.findMatch_eq_ok.mpr ⟨[], [],
      givenValues (valueText assignment.params) route.dir.segments, rfl, ?_, nofun, ?_⟩
    · rw [href_eq legible.brackets, path]
      exact captures_urlWith assignment.params_filled legible.fits
    · rw [params_routerPage route.plain]
      exact ran
  have parsed := @get?_parseVariables _ _ assignment _ legible.proto
    (fun name inherited other => (legible.own name inherited other).1) reads
  refine ⟨literal, route.searchParams.foldl (fillParam (searchEntries assignment.search.entries))
    (parseVariables route.documents matched), ?_, fun name member => ?_, fun name other => ?_⟩
  · have split : ∀ vars : Variables numbers, (if serializeForm (searchEntries
        assignment.search.entries) = [] then Except.ok (some vars) else
          .ok (some (route.searchParams.foldl (fillParam (parseForm malformed
            (serializeForm (searchEntries assignment.search.entries)))) vars))) =
        Except.ok (ε := String) (some (route.searchParams.foldl
          (fillParam (searchEntries assignment.search.entries)) vars)) := by
      intro vars
      split
      · next none => rw [serializeForm_eq_nil.mp none, foldl_fillParam_nil]
      · rw [parseForm_serializeForm]
    rw [findVariables, found, href_eq legible.brackets, ← split, ← query]
    rfl
  · have apart : name ∉ route.searchParams.map SearchParam.name := by
      intro among
      obtain ⟨param, isParam, rfl⟩ := List.mem_map.mp among
      exact route.search_apart param isParam member
    rw [get?_foldl_fillParam_of_not_mem apart, parsed, if_pos member]
  · have absent := parsed name
    rw [if_neg other] at absent
    by_cases declared : name ∈ route.searchParams.map SearchParam.name
    · obtain ⟨param, isParam, rfl⟩ := List.mem_map.mp declared
      obtain ⟨before, same, filled⟩ := @get?_foldl_fillParam _
        (searchEntries assignment.search.entries) _ _ route.search_nodup isParam
        (parseVariables route.documents matched)
      rw [filled]
      refine gives_fillParam (same.trans absent) (fun inherited => ?_) (fun value given => ?_)
        fun values given => legible.lists _ values given
      · exact (legible.own _ inherited other).2 param isParam rfl
      · obtain ⟨typed, among, equal, hasType⟩ := assignment.search_typed _ value given
        have unique : typed = param :=
          List.inj_on_of_nodup_map route.search_nodup among isParam equal
        rw [← unique]
        exact hasType
    · rw [get?_foldl_fillParam_of_not_mem declared, absent]
      cases given : assignment.search.get? name with
      | none => exact Or.inl rfl
      | some value =>
          obtain ⟨param, among, equal, _⟩ := assignment.search_typed name value given
          exact absurd (equal ▸ List.mem_map_of_mem among) declared

end Assignment

end Houdini.React
