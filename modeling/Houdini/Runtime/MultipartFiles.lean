import Houdini.Runtime.Multipart

/-! The files of a value, what a value looks like with something in their places, and what becomes
of it when they are received one after the other. -/

set_option autoImplicit false

namespace Houdini.Runtime.Multipart

universe u

theorem indexText_injective : Function.Injective indexText := by
  intro index other same
  have digits : Nat.toDigits 10 index = Nat.toDigits 10 other := by
    simpa [indexText, Nat.toList_repr] using same
  have value := congrArg (Nat.ofDigitChars 10 · 0) digits
  simpa [Nat.ofDigitChars_ten_toDigits] using value

theorem dotted_append_singleton {path : List Text} (filled : path ≠ []) (label : Text) :
    dotted (path ++ [label]) = dotted path ++ '.' :: label := by
  induction path with
  | nil => exact absurd rfl filled
  | cons first rest ih =>
      cases rest with
      | nil => simp [dotted, List.intercalate]
      | cons second rest =>
          have later := ih (by simp)
          simpa [dotted, List.intercalate] using later

theorem splitOn_dotted {path : List Text} (filled : path ≠ [])
    (undotted : ∀ label ∈ path, '.' ∉ label) : (dotted path).splitOn '.' = path :=
  List.splitOn_intercalate _ undotted filled

variable {File : Type u}

mutual

def filesOf : Value File → List (List Text × File)
  | .file file => [([], file)]
  | .list items => filesOfItems 0 items
  | .object _ fields => filesOfFields fields
  | .builtin _ => []
  | .primitive _ => []

def filesOfItems (index : Nat) : List (Value File) → List (List Text × File)
  | [] => []
  | item :: rest =>
      (filesOf item).map (fun found => (indexText index :: found.1, found.2)) ++
        filesOfItems (index + 1) rest

def filesOfFields : List (Text × Value File) → List (List Text × File)
  | [] => []
  | (key, value) :: rest =>
      (filesOf value).map (fun found => (key :: found.1, found.2)) ++ filesOfFields rest

end

mutual

def plainFilesOf : Value File → List (List Text × File)
  | .file file => [([], file)]
  | .list items => plainFilesOfItems 0 items
  | .object isPlain fields => if isPlain then plainFilesOfFields fields else []
  | .builtin _ => []
  | .primitive _ => []

def plainFilesOfItems (index : Nat) : List (Value File) → List (List Text × File)
  | [] => []
  | item :: rest =>
      (plainFilesOf item).map (fun found => (indexText index :: found.1, found.2)) ++
        plainFilesOfItems (index + 1) rest

def plainFilesOfFields : List (Text × Value File) → List (List Text × File)
  | [] => []
  | (key, value) :: rest =>
      (plainFilesOf value).map (fun found => (key :: found.1, found.2)) ++
        plainFilesOfFields rest

end

mutual

def Distinct : Value File → Prop
  | .list items => DistinctItems items
  | .object _ fields => (fields.map Prod.fst).Nodup ∧ DistinctFields fields
  | .file _ | .builtin _ | .primitive _ => True

def DistinctItems : List (Value File) → Prop
  | [] => True
  | item :: rest => Distinct item ∧ DistinctItems rest

def DistinctFields : List (Text × Value File) → Prop
  | [] => True
  | (_, value) :: rest => Distinct value ∧ DistinctFields rest

end

theorem render_cases (put other : List Text → File → Json File) (value : Value File) :
    (render put value = none ∧ render other value = none) ∨
      ∃ json otherJson, render put value = some json ∧ render other value = some otherJson := by
  cases value with
  | primitive json => cases json <;> simp [render]
  | file _ => simp [render]
  | builtin _ => simp [render]
  | list _ => simp [render]
  | object _ _ => simp [render]

theorem getD_render_eq_iff {put other : List Text → File → Json File} {value : Value File}
    (instead : Json File) :
    (render put value).getD instead = (render other value).getD instead ↔
      render put value = render other value := by
  obtain both | ⟨json, otherJson, first, second⟩ := render_cases put other value
  · simp [both.1, both.2]
  · rw [first, second, Option.getD_some, Option.getD_some, Option.some.injEq]

mutual

theorem render_eq_iff {put other : List Text → File → Json File} (value : Value File) :
    render put value = render other value ↔
      ∀ found ∈ filesOf value, put found.1 found.2 = other found.1 found.2 := by
  match value with
  | .file file => simp [render, filesOf]
  | .primitive json => simp [render, filesOf]
  | .builtin json => simp [render, filesOf]
  | .list items => simp [render, filesOf, renderItems_eq_iff 0 items]
  | .object isPlain fields => simp [render, filesOf, renderFields_eq_iff fields]

theorem renderItems_eq_iff {put other : List Text → File → Json File} (index : Nat)
    (items : List (Value File)) :
    renderItems put index items = renderItems other index items ↔
      ∀ found ∈ filesOfItems index items, put found.1 found.2 = other found.1 found.2 := by
  match items with
  | [] => simp [renderItems, filesOfItems]
  | item :: rest =>
      rw [renderItems, renderItems, List.cons.injEq, Prod.mk.injEq, getD_render_eq_iff,
        render_eq_iff item, renderItems_eq_iff (index + 1) rest, filesOfItems,
        List.forall_mem_append, List.forall_mem_map]
      simp

theorem renderFields_eq_iff {put other : List Text → File → Json File}
    (fields : List (Text × Value File)) :
    renderFields put fields = renderFields other fields ↔
      ∀ found ∈ filesOfFields fields, put found.1 found.2 = other found.1 found.2 := by
  match fields with
  | [] => simp [renderFields, filesOfFields]
  | (key, value) :: rest =>
      have own : render (fun path => put (key :: path)) value =
          render (fun path => other (key :: path)) value ↔ _ := render_eq_iff value
      rw [filesOfFields, List.forall_mem_append, List.forall_mem_map, ← renderFields_eq_iff rest,
        ← own, renderFields, renderFields]
      obtain both | ⟨json, otherJson, first, second⟩ :=
        render_cases (fun path => put (key :: path)) (fun path => other (key :: path)) value
      · simp [both.1, both.2]
      · simp [first, second]

end

mutual

theorem plainFilesOf_sublist (value : Value File) :
    (plainFilesOf value).Sublist (filesOf value) := by
  match value with
  | .file file => exact List.Sublist.refl _
  | .primitive json => exact List.Sublist.refl _
  | .builtin json => exact List.Sublist.refl _
  | .list items => exact plainFilesOfItems_sublist 0 items
  | .object isPlain fields =>
      rw [plainFilesOf, filesOf]
      split
      · exact plainFilesOfFields_sublist fields
      · exact List.nil_sublist _

theorem plainFilesOfItems_sublist (index : Nat) (items : List (Value File)) :
    (plainFilesOfItems index items).Sublist (filesOfItems index items) := by
  match items with
  | [] => exact List.Sublist.refl _
  | item :: rest =>
      exact ((plainFilesOf_sublist item).map _).append (plainFilesOfItems_sublist (index + 1) rest)

theorem plainFilesOfFields_sublist (fields : List (Text × Value File)) :
    (plainFilesOfFields fields).Sublist (filesOfFields fields) := by
  match fields with
  | [] => exact List.Sublist.refl _
  | (key, value) :: rest =>
      exact ((plainFilesOf_sublist value).map _).append (plainFilesOfFields_sublist rest)

end

theorem label_of_mem_items {index : Nat} {items : List (Value File)} {found : List Text × File}
    (member : found ∈ filesOfItems index items) :
    ∃ number path, index ≤ number ∧ found.1 = indexText number :: path := by
  induction items generalizing index with
  | nil => cases member
  | cons item rest ih =>
      rw [filesOfItems, List.mem_append, List.mem_map] at member
      cases member with
      | inl own =>
          obtain ⟨inside, _, same⟩ := own
          exact ⟨index, inside.1, Nat.le_refl index, by rw [← same]⟩
      | inr later =>
          obtain ⟨number, path, above, same⟩ := ih later
          exact ⟨number, path, Nat.le_of_succ_le above, same⟩

theorem label_of_mem_fields {fields : List (Text × Value File)} {found : List Text × File}
    (member : found ∈ filesOfFields fields) :
    ∃ key ∈ fields.map Prod.fst, ∃ path, found.1 = key :: path := by
  induction fields with
  | nil => cases member
  | cons field rest ih =>
      obtain ⟨key, value⟩ := field
      rw [filesOfFields, List.mem_append, List.mem_map] at member
      cases member with
      | inl own =>
          obtain ⟨inside, _, same⟩ := own
          exact ⟨key, List.mem_cons_self, inside.1, by rw [← same]⟩
      | inr later =>
          obtain ⟨other, listed, path, same⟩ := ih later
          exact ⟨other, List.mem_cons_of_mem _ listed, path, same⟩

mutual

theorem at?_render (put : List Text → File → Json File) {path : List Text} {file : File}
    (value : Value File) (distinct : Distinct value) (member : (path, file) ∈ filesOf value) :
    (render put value).bind (LabelledTree.at? path) = some (put path file) := by
  match value with
  | .file other =>
      rw [filesOf, List.mem_singleton, Prod.mk.injEq] at member
      rw [member.1, member.2]
      rfl
  | .primitive json => simp [filesOf] at member
  | .builtin json => simp [filesOf] at member
  | .list items =>
      rw [filesOf] at member
      obtain ⟨number, inside, _, same⟩ := label_of_mem_items member
      dsimp only at same
      subst same
      rw [Distinct] at distinct
      exact child?_renderItems put 0 items distinct member
  | .object isPlain fields =>
      rw [filesOf] at member
      obtain ⟨key, _, inside, same⟩ := label_of_mem_fields member
      dsimp only at same
      subst same
      rw [Distinct] at distinct
      exact child?_renderFields put fields distinct.1 distinct.2 member

theorem child?_renderItems (put : List Text → File → Json File) {label : Text}
    {path : List Text} {file : File} (index : Nat) (items : List (Value File))
    (distinct : DistinctItems items) (member : (label :: path, file) ∈ filesOfItems index items) :
    (LabelledTree.child? label (renderItems put index items)).bind (LabelledTree.at? path) =
      some (put (label :: path) file) := by
  match items with
  | [] => cases member
  | item :: rest =>
      rw [DistinctItems] at distinct
      rw [filesOfItems, List.mem_append, List.mem_map] at member
      rw [renderItems, LabelledTree.child?]
      cases member with
      | inl own =>
          obtain ⟨inside, among, same⟩ := own
          obtain ⟨rfl, rfl⟩ := List.cons.inj (congrArg Prod.fst same)
          obtain rfl := congrArg Prod.snd same
          have found := at?_render (fun path => put (indexText index :: path)) item distinct.1 among
          obtain ⟨json, rendered, there⟩ := Option.bind_eq_some_iff.mp found
          rwa [if_pos rfl, rendered, Option.getD_some]
      | inr later =>
          obtain ⟨number, inside, above, same⟩ := label_of_mem_items later
          have label := (List.cons.inj same).1
          have different : indexText index ≠ indexText number := fun equal =>
            absurd (indexText_injective equal) (by omega)
          subst label
          rw [if_neg different, child?_renderItems put (index + 1) rest distinct.2 later]

theorem child?_renderFields (put : List Text → File → Json File) {key : Text}
    {path : List Text} {file : File} (fields : List (Text × Value File))
    (nodup : (fields.map Prod.fst).Nodup) (distinct : DistinctFields fields)
    (member : (key :: path, file) ∈ filesOfFields fields) :
    (LabelledTree.child? key (renderFields put fields)).bind (LabelledTree.at? path) =
      some (put (key :: path) file) := by
  match fields with
  | [] => cases member
  | (name, value) :: rest =>
      rw [DistinctFields] at distinct
      rw [List.map_cons, List.nodup_cons] at nodup
      rw [filesOfFields, List.mem_append, List.mem_map] at member
      rw [renderFields]
      cases member with
      | inl own =>
          obtain ⟨inside, among, same⟩ := own
          obtain ⟨rfl, rfl⟩ := List.cons.inj (congrArg Prod.fst same)
          obtain rfl := congrArg Prod.snd same
          have found := at?_render (fun path => put (name :: path)) value distinct.1 among
          obtain ⟨json, rendered, there⟩ := Option.bind_eq_some_iff.mp found
          rw [rendered]
          dsimp only
          rwa [LabelledTree.child?, if_pos rfl]
      | inr later =>
          obtain ⟨other, listed, inside, same⟩ := label_of_mem_fields later
          have label := (List.cons.inj same).1
          have different : name ≠ key := fun equal => nodup.1 (equal ▸ label ▸ listed)
          have found := child?_renderFields put rest nodup.2 distinct.2 later
          cases render (fun path => put (name :: path)) value with
          | none => exact found
          | some json =>
              dsimp only
              rw [LabelledTree.child?, if_neg different, found]

end

def placed (put : List Text → File → Json File) (path : List Text) (new : File) :
    List Text → File → Json File :=
  fun other file => if other = path then .leaf (.file new) else put other file

theorem placed_cons_self (put : List Text → File → Json File) (label : Text) (path : List Text)
    (new : File) : (fun other => placed put (label :: path) new (label :: other)) =
      placed (fun other => put (label :: other)) path new := by
  funext other file
  simp [placed]

theorem placed_cons_of_ne (put : List Text → File → Json File) {label name : Text}
    (different : name ≠ label) (path : List Text) (new : File) :
    (fun other => placed put (label :: path) new (name :: other)) =
      fun other => put (name :: other) := by
  funext other file
  simp [placed, different]

theorem renderItems_placed {put : List Text → File → Json File} {index number : Nat}
    (before : number < index) (path : List Text) (new : File) (items : List (Value File)) :
    renderItems (placed put (indexText number :: path) new) index items =
      renderItems put index items := by
  rw [renderItems_eq_iff]
  intro found member
  obtain ⟨other, inside, above, same⟩ := label_of_mem_items member
  have different : found.1 ≠ indexText number :: path := by
    rw [same]
    intro equal
    have index := indexText_injective (List.cons.inj equal).1
    omega
  rw [placed, if_neg different]

theorem renderFields_placed {put : List Text → File → Json File} {key : Text}
    {fields : List (Text × Value File)} (absent : key ∉ fields.map Prod.fst) (path : List Text)
    (new : File) :
    renderFields (placed put (key :: path) new) fields = renderFields put fields := by
  rw [renderFields_eq_iff]
  intro found member
  obtain ⟨other, listed, inside, same⟩ := label_of_mem_fields member
  have different : found.1 ≠ key :: path := by
    rw [same]
    intro equal
    exact absent ((List.cons.inj equal).1 ▸ listed)
  rw [placed, if_neg different]

mutual

theorem replace?_render (put : List Text → File → Json File) {path : List Text} {file : File}
    (new : File) (value : Value File) (distinct : Distinct value)
    (member : (path, file) ∈ filesOf value) :
    ∃ json replaced, render put value = some json ∧
      render (placed put path new) value = some replaced ∧
      json.replace? (.file new) path = some replaced := by
  match value with
  | .file other =>
      rw [filesOf, List.mem_singleton, Prod.mk.injEq] at member
      rw [member.1]
      exact ⟨_, _, rfl, rfl, by simp [LabelledTree.replace?, placed]⟩
  | .primitive json => simp [filesOf] at member
  | .builtin json => simp [filesOf] at member
  | .list items =>
      rw [filesOf] at member
      obtain ⟨number, inside, _, same⟩ := label_of_mem_items member
      dsimp only at same
      subst same
      rw [Distinct] at distinct
      refine ⟨_, _, rfl, rfl, ?_⟩
      rw [LabelledTree.replace?, changeChild_renderItems put new 0 items distinct member,
        Option.map_some]
  | .object isPlain fields =>
      rw [filesOf] at member
      obtain ⟨key, _, inside, same⟩ := label_of_mem_fields member
      dsimp only at same
      subst same
      rw [Distinct] at distinct
      refine ⟨_, _, rfl, rfl, ?_⟩
      rw [LabelledTree.replace?,
        changeChild_renderFields put new fields distinct.1 distinct.2 member, Option.map_some]

theorem changeChild_renderItems (put : List Text → File → Json File) {label : Text}
    {path : List Text} {file : File} (new : File) (index : Nat) (items : List (Value File))
    (distinct : DistinctItems items) (member : (label :: path, file) ∈ filesOfItems index items) :
    LabelledTree.changeChild label (LabelledTree.replace? (.file new) path)
        (renderItems put index items) =
      some (renderItems (placed put (label :: path) new) index items) := by
  match items with
  | [] => cases member
  | item :: rest =>
      rw [DistinctItems] at distinct
      rw [filesOfItems, List.mem_append, List.mem_map] at member
      rw [renderItems, renderItems, LabelledTree.changeChild]
      cases member with
      | inl own =>
          obtain ⟨inside, among, same⟩ := own
          obtain ⟨rfl, rfl⟩ := List.cons.inj (congrArg Prod.fst same)
          obtain ⟨json, replaced, rendered, became, replacement⟩ := replace?_render
            (fun path => put (indexText index :: path)) new item distinct.1 among
          rw [if_pos rfl, rendered, Option.getD_some, replacement, placed_cons_self, became,
            Option.getD_some, Option.map_some, renderItems_placed (Nat.lt_succ_self index)]
      | inr later =>
          obtain ⟨number, inside, above, same⟩ := label_of_mem_items later
          have label := (List.cons.inj same).1
          have different : indexText index ≠ indexText number := fun equal =>
            absurd (indexText_injective equal) (by omega)
          subst label
          rw [if_neg different, changeChild_renderItems put new (index + 1) rest distinct.2 later,
            Option.map_some, placed_cons_of_ne put different]

theorem changeChild_renderFields (put : List Text → File → Json File) {key : Text}
    {path : List Text} {file : File} (new : File) (fields : List (Text × Value File))
    (nodup : (fields.map Prod.fst).Nodup) (distinct : DistinctFields fields)
    (member : (key :: path, file) ∈ filesOfFields fields) :
    LabelledTree.changeChild key (LabelledTree.replace? (.file new) path)
        (renderFields put fields) =
      some (renderFields (placed put (key :: path) new) fields) := by
  match fields with
  | [] => cases member
  | (name, value) :: rest =>
      rw [DistinctFields] at distinct
      rw [List.map_cons, List.nodup_cons] at nodup
      rw [filesOfFields, List.mem_append, List.mem_map] at member
      rw [renderFields, renderFields]
      cases member with
      | inl own =>
          obtain ⟨inside, among, same⟩ := own
          obtain ⟨rfl, rfl⟩ := List.cons.inj (congrArg Prod.fst same)
          obtain ⟨json, replaced, rendered, became, replacement⟩ := replace?_render
            (fun path => put (name :: path)) new value distinct.1 among
          rw [rendered, placed_cons_self, became]
          dsimp only
          rw [LabelledTree.changeChild, if_pos rfl, replacement, Option.map_some,
            renderFields_placed nodup.1]
      | inr later =>
          obtain ⟨other, listed, inside, same⟩ := label_of_mem_fields later
          have label := (List.cons.inj same).1
          have different : name ≠ key := fun equal => nodup.1 (equal ▸ label ▸ listed)
          have changed := changeChild_renderFields put new rest nodup.2 distinct.2 later
          rw [placed_cons_of_ne put different]
          cases render (fun path => put (name :: path)) value with
          | none => exact changed
          | some json =>
              dsimp only
              rw [LabelledTree.changeChild, if_neg different, changed, Option.map_some]

end

theorem file_unique {value : Value File} (distinct : Distinct value) {path : List Text}
    {file other : File} (member : (path, file) ∈ filesOf value)
    (otherMember : (path, other) ∈ filesOf value) : file = other := by
  have first := at?_render (fun _ file => .leaf (.file file)) value distinct member
  rw [at?_render _ value distinct otherMember] at first
  injection first with same
  injection same with same
  injection same with same
  exact same.symm

variable [DecidableEq File]

def filling (held : Json File) (done : List (List Text × File)) :
    List Text → File → Json File :=
  fun path file => if (path, file) ∈ done then .leaf (.file file) else held

theorem foldlM_replace? {value : Value File} (distinct : Distinct value) (held : Json File)
    {todo : List (List Text × File)} (listed : ∀ found ∈ todo, found ∈ filesOf value)
    {done : List (List Text × File)} {json : Json File}
    (rendered : render (filling held done) value = some json) :
    todo.foldlM (fun tree found => tree.replace? (.file found.2) found.1) json =
      render (filling held (done ++ todo)) value := by
  induction todo generalizing done json with
  | nil => rw [List.append_nil, rendered, List.foldlM_nil, Option.pure_def]
  | cons found rest ih =>
      obtain ⟨path, file⟩ := found
      have member := listed (path, file) List.mem_cons_self
      obtain ⟨first, replaced, same, became, replacement⟩ :=
        replace?_render (filling held done) file value distinct member
      obtain rfl := Option.some.inj (rendered.symm.trans same)
      have next : render (filling held (done ++ [(path, file)])) value = some replaced := by
        rw [← became, render_eq_iff]
        intro other among
        by_cases here : other.1 = path
        · have equal : other.2 = file := file_unique distinct
            (show (path, other.2) ∈ filesOf value by rw [← here]; exact among) member
          simp [filling, placed, here, equal]
        · have apart : other ≠ (path, file) := fun equal => here (congrArg Prod.fst equal)
          simp [filling, placed, here, apart]
      have later := ih (fun other among => listed other (List.mem_cons_of_mem _ among)) next
      rw [List.append_assoc, List.singleton_append] at later
      rw [List.foldlM_cons, replacement]
      exact later

end Houdini.Runtime.Multipart
