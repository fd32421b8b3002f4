import PatternTree.Dialect.Json
import PatternTree.Proofs.CharClass.Canonical
import PatternTree.Proofs.Json.Accepted
import PatternTree.Proofs.Json.Printing
import PatternTree.Proofs.Outline

namespace PatternTree

namespace Json

/-- Code points have a text exactly when they are its own. -/
theorem text?_eq_some_iff {units : List Nat} {text : String} :
    text? units = some text ↔ units = codes text := by
  constructor
  · intro htext
    obtain ⟨chars, hchars, rfl⟩ := Option.map_eq_some_iff.mp htext
    have hall := mapM_eq_some_iff.mp hchars
    clear htext hchars
    rw [codes, String.toList_ofList]
    induction hall with
    | nil => rfl
    | @cons code char units chars hcode _ ih =>
      obtain ⟨hvalid, hchar⟩ := Option.ite_none_right_eq_some.mp hcode
      rw [List.map_cons, ← Option.some.inj hchar, CharClass.toNat_ofNat hvalid, ← ih]
  · rintro rfl
    exact text?_codes text

/-- Code points that a text has. Half of a surrogate pair is in none. -/
def IsText (units : List Nat) : Prop :=
  ∃ text, units = codes text

theorem codes_injective : Function.Injective codes := by
  intro first second heq
  have htext := congrArg text? heq
  simpa using htext

/-- The values that members have under a name, in their order. -/
def valuesOf (name : String) (members : List (List Nat × Json)) : List Json :=
  (members.filter fun member => member.1 = codes name).map Prod.snd

/-- A member in the last place has the last of the values under its name. -/
theorem valuesOf_append_codes (name key : String) (front : List (List Nat × Json))
    (value : Json) : valuesOf name (front ++ [(codes key, value)]) =
      if key = name then valuesOf name front ++ [value] else valuesOf name front := by
  split
  next heq => simp [valuesOf, heq]
  next hne => simp [valuesOf, codes_injective.ne hne]

/-- Under a name stand the values whose keys are that text. -/
theorem valuesOf_map_codes (name : String) (members : List (String × Json)) :
    valuesOf name (members.map fun (key, value) => (codes key, value)) =
      (members.filter fun member => member.1 = name).map Prod.snd := by
  simp [valuesOf, List.filter_map, Function.comp_def, codes_injective.eq_iff]

theorem isText_of_mem_map_codes {members : List (String × Json)} :
    ∀ member ∈ members.map fun (key, value) => (codes key, value), IsText member.1 :=
  List.forall_mem_map.mpr fun member _ => ⟨member.1, rfl⟩

end Json

open Json (valuesOf codes)

/-- A text of settings gives a class syntax by its name, alone or as the only key of an object
    with the value null. -/
inductive ClassSyntax.WrittenAs : Json → ClassSyntax → Prop
  | name (classSyntax : ClassSyntax) : WrittenAs (.ofText classSyntax.name) classSyntax
  | key (classSyntax : ClassSyntax) :
      WrittenAs (.ofMembers [(classSyntax.name, .null)]) classSyntax

theorem ClassSyntax.WrittenAs.ofJson? {value : Json} {classSyntax : ClassSyntax}
    (hvalue : WrittenAs value classSyntax) : ClassSyntax.ofJson? value = some classSyntax := by
  cases hvalue <;> simp [ClassSyntax.ofJson?, Json.ofText, Json.ofMembers]

namespace Dialect

theorem depthOfJson?_ofNat {depth : Nat} (hdepth : Text.fits64 depth) :
    depthOfJson? (.ofNat depth) = some depth := by
  have hdigits : (Nat.toDigits 10 depth).all Char.isDigit :=
    List.all_eq_true.mpr fun _ hchar => Text.isDigit_of_mem_decimal _ hchar
  have hvalue : Text.decimalValue (Nat.toDigits 10 depth) = depth :=
    Text.decimalValue_decimal depth
  simp [depthOfJson?, Json.ofNat, hdigits, hvalue, hdepth]

/-- What the values under one name leave for its setting: none without a value, and the only one
    read otherwise. -/
def Leaves {α : Type} (read? : Json → Option α) (values : List Json) (setting : Option α) : Prop :=
  values.map read? = setting.toList.map some

variable {α : Type} {read? : Json → Option α}

theorem leaves_none_iff {values : List Json} : Leaves read? values none ↔ values = [] :=
  List.map_eq_nil_iff

theorem leaves_nil_iff {setting : Option α} : Leaves read? [] setting ↔ setting = none := by
  cases setting <;> simp [Leaves]

theorem Leaves.length_le_one {values : List Json} {setting : Option α}
    (hleaves : Leaves read? values setting) : values.length ≤ 1 := by
  have hlength := congrArg List.length hleaves
  cases setting <;> simp_all

theorem leaves_append_iff {values : List Json} {value : Json} {setting : Option α} :
    Leaves read? (values ++ [value]) setting ↔
      values = [] ∧ ∃ result, read? value = some result ∧ setting = some result := by
  constructor
  · intro hleaves
    have hvalues : values = [] := by
      have hlength := hleaves.length_le_one
      rw [List.length_append, List.length_singleton] at hlength
      exact List.eq_nil_of_length_eq_zero (by omega)
    subst hvalues
    cases setting with
    | none => simp [Leaves] at hleaves
    | some result => exact ⟨rfl, result, by simpa [Leaves] using hleaves, rfl⟩
  · rintro ⟨rfl, result, hresult, rfl⟩
    simp [Leaves, hresult]

/-- The three settings. -/
def settingNames : List String :=
  ["allow_duplicate_group_names", "max_nesting_depth", "class_syntax"]

namespace Settings

/-- What the members of an object leave as settings: their keys are texts, and each setting is
    what the values under its name leave. -/
@[mk_iff]
structure LeftBy (settings : Settings) (members : List (List Nat × Json)) : Prop where
  keys : ∀ member ∈ members, Json.IsText member.1
  allow : Leaves switchOfJson? (valuesOf "allow_duplicate_group_names" members)
    settings.allowDuplicateNames
  depth : Leaves depthOfJson? (valuesOf "max_nesting_depth" members) settings.maxDepth
  classSyntax : Leaves ClassSyntax.ofJson? (valuesOf "class_syntax" members) settings.classSyntax

variable {settings after : Settings} {front members : List (List Nat × Json)} {value : Json}

theorem addMember_of_not_text {units : List Nat} (hunits : ¬ Json.IsText units) :
    settings.addMember (units, value) = none := by
  have hnone : Json.text? units = none :=
    Option.eq_none_iff_forall_ne_some.mpr fun key hkey =>
      hunits ⟨key, Json.text?_eq_some_iff.mp hkey⟩
  rw [addMember, hnone, Option.bind_none]

theorem addMember_other {key : String} (hkey : key ∉ settingNames) :
    settings.addMember (codes key, value) = some settings := by
  simp only [settingNames, List.mem_cons, List.not_mem_nil, or_false, not_or] at hkey
  obtain ⟨hallow, hdepth, hsyntax⟩ := hkey
  simp only [addMember, Json.text?_codes, Option.bind_some]

theorem addMember_allow_iff :
    settings.addMember (codes "allow_duplicate_group_names", value) = some after ↔
      settings.allowDuplicateNames = none ∧ ∃ allow, switchOfJson? value = some allow ∧
        { settings with allowDuplicateNames := some allow } = after := by
  simp only [addMember, Json.text?_codes, Option.bind_some, Option.ite_none_left_eq_some,
    Option.map_eq_some_iff, Option.not_isSome_iff_eq_none]

theorem addMember_depth_iff :
    settings.addMember (codes "max_nesting_depth", value) = some after ↔
      settings.maxDepth = none ∧ ∃ depth, depthOfJson? value = some depth ∧
        { settings with maxDepth := some depth } = after := by
  simp only [addMember, Json.text?_codes, Option.bind_some, Option.ite_none_left_eq_some,
    Option.map_eq_some_iff, Option.not_isSome_iff_eq_none]

theorem addMember_classSyntax_iff :
    settings.addMember (codes "class_syntax", value) = some after ↔
      settings.classSyntax = none ∧ ∃ classSyntax, ClassSyntax.ofJson? value = some classSyntax ∧
        { settings with classSyntax := some classSyntax } = after := by
  simp only [addMember, Json.text?_codes, Option.bind_some, Option.ite_none_left_eq_some,
    Option.map_eq_some_iff, Option.not_isSome_iff_eq_none]

theorem leftBy_append_codes_iff {key : String} :
    after.LeftBy (front ++ [(codes key, value)]) ↔
      ∃ settings : Settings, settings.LeftBy front ∧
        settings.addMember (codes key, value) = some after := by
  have hkeys : (∀ member ∈ front ++ [(codes key, value)], Json.IsText member.1) ↔
      ∀ member ∈ front, Json.IsText member.1 := by
    rw [List.forall_mem_append]
    exact and_iff_left (List.forall_mem_singleton.mpr ⟨key, rfl⟩)
  by_cases hkey : key ∈ settingNames
  · simp only [settingNames, List.mem_cons, List.not_mem_nil, or_false] at hkey
    simp only [leftBy_iff, hkeys, Json.valuesOf_append_codes]
    obtain rfl | rfl | rfl := hkey
    -- a name is free in front of its last value, so that setting is taken out of those left
    · simp only [addMember_allow_iff, leaves_append_iff, if_true, String.reduceEq, if_false]
      constructor
      · rintro ⟨hfront, ⟨hnil, allow, hallow, heq⟩, hdepth, hsyntax⟩
        exact ⟨{ after with allowDuplicateNames := none },
          ⟨hfront, leaves_none_iff.mpr hnil, hdepth, hsyntax⟩, rfl, allow, hallow, by rw [← heq]⟩
      · rintro ⟨settings, ⟨hfront, hleaves, hdepth, hsyntax⟩, hnone, allow, hallow, rfl⟩
        rw [hnone, leaves_none_iff] at hleaves
        exact ⟨hfront, ⟨hleaves, allow, hallow, rfl⟩, hdepth, hsyntax⟩
    · simp only [addMember_depth_iff, leaves_append_iff, if_true, String.reduceEq, if_false]
      constructor
      · rintro ⟨hfront, hallow, ⟨hnil, depth, hdepth, heq⟩, hsyntax⟩
        exact ⟨{ after with maxDepth := none },
          ⟨hfront, hallow, leaves_none_iff.mpr hnil, hsyntax⟩, rfl, depth, hdepth, by rw [← heq]⟩
      · rintro ⟨settings, ⟨hfront, hallow, hleaves, hsyntax⟩, hnone, depth, hdepth, rfl⟩
        rw [hnone, leaves_none_iff] at hleaves
        exact ⟨hfront, hallow, ⟨hleaves, depth, hdepth, rfl⟩, hsyntax⟩
    · simp only [addMember_classSyntax_iff, leaves_append_iff, if_true, String.reduceEq, if_false]
      constructor
      · rintro ⟨hfront, hallow, hdepth, hnil, classSyntax, hsyntax, heq⟩
        exact ⟨{ after with classSyntax := none },
          ⟨hfront, hallow, hdepth, leaves_none_iff.mpr hnil⟩, rfl, classSyntax, hsyntax,
          by rw [← heq]⟩
      · rintro ⟨settings, ⟨hfront, hallow, hdepth, hleaves⟩, hnone, classSyntax, hsyntax, rfl⟩
        rw [hnone, leaves_none_iff] at hleaves
        exact ⟨hfront, hallow, hdepth, hleaves, classSyntax, hsyntax, rfl⟩
  · simp only [addMember_other hkey, leftBy_iff, hkeys, Json.valuesOf_append_codes]
    simp only [settingNames, List.mem_cons, List.not_mem_nil, or_false, not_or] at hkey
    simp [hkey]

/-- Members are read as settings exactly when they leave those, in whatever order they stand. -/
theorem foldlM_addMember_eq_some_iff :
    members.foldlM addMember {} = some settings ↔ settings.LeftBy members := by
  -- the settings so far are what the members so far leave, so the last member is taken off
  induction members using List.reverseRecOn generalizing settings with
  | nil =>
    constructor
    · intro heq
      obtain rfl := Option.some.inj heq
      exact ⟨by simp, rfl, rfl, rfl⟩
    · rintro ⟨-, hallow, hdepth, hsyntax⟩
      obtain ⟨allow, depth, classSyntax⟩ := settings
      obtain rfl := leaves_nil_iff.mp hallow
      obtain rfl := leaves_nil_iff.mp hdepth
      obtain rfl := leaves_nil_iff.mp hsyntax
      rfl
  | append_singleton front member ih =>
    obtain ⟨units, value⟩ := member
    have hlast : ∀ settings : Settings,
        [(units, value)].foldlM addMember settings = settings.addMember (units, value) :=
      fun settings => by simp
    simp only [List.foldlM_append, Option.bind_eq_bind, Option.bind_eq_some_iff, ih, hlast]
    by_cases htext : Json.IsText units
    · obtain ⟨key, rfl⟩ := htext
      exact leftBy_append_codes_iff.symm
    · constructor
      · rintro ⟨before, -, hmember⟩
        rw [addMember_of_not_text htext] at hmember
        cases hmember
      · intro hleft
        exact absurd (hleft.keys (units, value) (by simp)) htext

/-- A name under which several values stand leaves no setting. -/
theorem LeftBy.length_valuesOf_le_one (hleft : settings.LeftBy members) {name : String}
    (hname : name ∈ settingNames) : (valuesOf name members).length ≤ 1 := by
  simp only [settingNames, List.mem_cons, List.not_mem_nil, or_false] at hname
  obtain rfl | rfl | rfl := hname
  · exact hleft.allow.length_le_one
  · exact hleft.depth.length_le_one
  · exact hleft.classSyntax.length_le_one

/-- The members give these settings and no others, each once and in a form of its kind, whatever
    they hold under other keys. -/
structure WrittenBy (settings : Settings) (members : List (List Nat × Json)) : Prop where
  allow : valuesOf "allow_duplicate_group_names" members =
    settings.allowDuplicateNames.toList.map .bool
  depth : valuesOf "max_nesting_depth" members = settings.maxDepth.toList.map .ofNat
  fits : ∀ depth ∈ settings.maxDepth, Text.fits64 depth
  classSyntax : List.Forall₂ ClassSyntax.WrittenAs (valuesOf "class_syntax" members)
    settings.classSyntax.toList

theorem WrittenBy.leftBy (hwritten : settings.WrittenBy members)
    (hkeys : ∀ member ∈ members, Json.IsText member.1) : settings.LeftBy members := by
  obtain ⟨allow?, depth?, classSyntax?⟩ := settings
  obtain ⟨hallow, hdepth, hfits, hsyntax⟩ := hwritten
  refine ⟨hkeys, ?_, ?_, ?_⟩
  · rw [Leaves, hallow]
    cases allow? <;> rfl
  · rw [Leaves, hdepth]
    cases depth? with
    | none => rfl
    | some depth => simp [depthOfJson?_ofNat (hfits depth rfl)]
  · cases classSyntax? with
    | none => exact leaves_none_iff.mpr (List.forall₂_nil_right_iff.mp hsyntax)
    | some classSyntax =>
      obtain ⟨value, values, hvalue, hvalues, heq⟩ := List.forall₂_cons_right_iff.mp hsyntax
      obtain rfl := List.forall₂_nil_right_iff.mp hvalues
      simp [Leaves, heq, hvalue.ofJson?]

end Settings

variable {text : String} {members : List (List Nat × Json)}

/-- A text is read as the dialect that the one value gives which it writes. -/
theorem parse?_eq_some_iff {dialect : Dialect} :
    parse? text = some dialect ↔
      ∃ value, Json.Writes value text.toList ∧ ofJson? value = some dialect := by
  simp only [parse?, Option.bind_eq_some_iff, Json.parse?_eq_some_iff]

theorem parse?_of_writtenBy (htext : Json.Writes (.object members) text.toList)
    (settings : Settings) (hwritten : settings.WrittenBy members)
    (hkeys : ∀ member ∈ members, Json.IsText member.1) :
    parse? text = some (settings.applyTo {}) := by
  refine parse?_eq_some_iff.mpr ⟨_, htext, ?_⟩
  rw [ofJson?, Settings.foldlM_addMember_eq_some_iff.mpr (hwritten.leftBy hkeys),
    Option.map_some]

/-- A text is rejected when its members leave no settings. -/
theorem parse?_eq_none (htext : Json.Writes (.object members) text.toList)
    (hleft : ∀ settings : Settings, ¬ settings.LeftBy members) : parse? text = none := by
  refine Option.eq_none_iff_forall_ne_some.mpr fun dialect hread => ?_
  obtain ⟨value, hvalue, hdialect⟩ := parse?_eq_some_iff.mp hread
  obtain rfl := hvalue.unique htext
  obtain ⟨settings, hsettings, -⟩ := Option.map_eq_some_iff.mp hdialect
  exact hleft settings (Settings.foldlM_addMember_eq_some_iff.mp hsettings)

/-- What a dialect is printed as is read as all of its settings. -/
theorem parse?_compress_toJson {dialect : Dialect} (hdepth : Text.fits64 dialect.maxDepth) :
    parse? dialect.toJson.compress = some dialect := by
  have htext : Json.Writes dialect.toJson dialect.toJson.compress.toList := by
    refine Json.writes_compress_ofMembers ?_
    simp only [List.forall_mem_cons]
    exact ⟨Json.writes_bool _, Json.writes_ofNat _, Json.writes_ofText _, by simp⟩
  refine parse?_of_writtenBy htext
    ⟨some dialect.allowDuplicateNames, some dialect.maxDepth, some dialect.classSyntax⟩ ?_
    Json.isText_of_mem_map_codes
  constructor
  · rw [Json.valuesOf_map_codes]
    rfl
  · rw [Json.valuesOf_map_codes]
    rfl
  · rintro depth ⟨⟩
    exact hdepth
  · rw [Json.valuesOf_map_codes]
    exact .cons (.name _) .nil

/-- Settings are read whatever their layout. What a dialect is printed as is read as that dialect.
    A text that writes an object is read as the defaults with the settings that its members give,
    in whatever order and among whatever members under other keys they stand, as long as all
    keys are texts. It is rejected when several members have the name of one setting, and when a
    key has half of a surrogate pair alone. -/
theorem parse?_layout :
    (∀ dialect : Dialect, Text.fits64 dialect.maxDepth →
      parse? dialect.toJson.compress = some dialect) ∧
    ∀ (text : String) (members : List (List Nat × Json)),
      Json.Writes (.object members) text.toList →
      (∀ settings : Settings, settings.WrittenBy members →
        (∀ member ∈ members, Json.IsText member.1) →
        parse? text = some
          { allowDuplicateNames := settings.allowDuplicateNames.getD false
            maxDepth := settings.maxDepth.getD 1000
            classSyntax := settings.classSyntax.getD .pcre }) ∧
      (∀ name ∈ settingNames, 2 ≤ (valuesOf name members).length → parse? text = none) ∧
      (∀ member ∈ members, ¬ Json.IsText member.1 → parse? text = none) := by
  constructor
  · intro dialect hdepth
    exact parse?_compress_toJson hdepth
  · intro text members htext
    refine ⟨parse?_of_writtenBy htext, ?_, ?_⟩
    · intro name hname htwice
      refine parse?_eq_none htext fun settings hleft => ?_
      have hone := hleft.length_valuesOf_le_one hname
      omega
    · intro member hmember hkey
      exact parse?_eq_none htext fun settings hleft => hkey (hleft.keys member hmember)

/-- The key of this object is half of a surrogate pair. -/
theorem writes_loneHalf :
    Json.Writes (.object [([0xd800], .ofNat 1)]) "\x7b\"\\ud800\":1\x7d".toList := by
  have hvalue : Text.hexadecimalValue ['d', '8', '0', '0'] = 0xd800 := by decide
  have hunit := Json.IsUnit.digits (by decide : ['d', '8', '0', '0'].all Text.isHexDigit)
  rw [hvalue] at hunit
  have hkey : Json.Spells [0xd800] ['\\', 'u', 'd', '8', '0', '0'] :=
    .unit hunit (fun _ _ hnext => absurd hnext (by simp)) .nil
  exact .object (.one (.quoted Json.blanks_nil Json.blanks_nil hkey) (Json.writes_ofNat 1))

theorem not_isText_loneHalf : ¬ Json.IsText [0xd800] := by
  rintro ⟨text, htext⟩
  have hnone : Json.text? [0xd800] = none := by decide
  rw [Json.text?_eq_some_iff.mpr htext] at hnone
  cases hnone

/-- A name inside a member that is no setting does not count; twice in the object it does. -/
theorem parse?_layout_nested :
    parse? (Dialect.toJson ⟨true, 18446744073709551615, .posix⟩).compress =
        some ⟨true, 18446744073709551615, .posix⟩ ∧
      parse? "\x7b\"note\":\x7b\"class_syntax\":1\x7d,\"class_syntax\":\"posix\"\x7d" =
        some ⟨false, 1000, .posix⟩ ∧
      parse? "\x7b\"max_nesting_depth\":7,\"note\":0,\"max_nesting_depth\":7\x7d" = none ∧
      parse? "\x7b\"\\ud800\":1\x7d" = none := by
  have hnested : Json.Writes
      (.ofMembers [("note", .ofMembers [("class_syntax", .ofNat 1)]),
        ("class_syntax", .ofText "posix")])
      "\x7b\"note\":\x7b\"class_syntax\":1\x7d,\"class_syntax\":\"posix\"\x7d".toList := by
    refine Json.writes_ofMembers ?_
    simp only [List.forall_mem_cons]
    have hnote : Json.Writes (.ofMembers [("class_syntax", .ofNat 1)])
        (Json.ofMembers [("class_syntax", .ofNat 1)]).chars :=
      Json.writes_ofMembers (by simp [Json.writes_ofNat])
    exact ⟨hnote, Json.writes_ofText _, by simp⟩
  have htwice : Json.Writes
      (.ofMembers [("max_nesting_depth", .ofNat 7), ("note", .ofNat 0),
        ("max_nesting_depth", .ofNat 7)])
      "\x7b\"max_nesting_depth\":7,\"note\":0,\"max_nesting_depth\":7\x7d".toList :=
    Json.writes_ofMembers (by simp [Json.writes_ofNat])
  refine ⟨parse?_layout.1 ⟨true, 18446744073709551615, .posix⟩ (by decide),
    (parse?_layout.2 _ _ hnested).1 { classSyntax := some .posix } ?_ Json.isText_of_mem_map_codes,
    (parse?_layout.2 _ _ htwice).2.1 "max_nesting_depth" (by decide) ?_,
    (parse?_layout.2 _ _ writes_loneHalf).2.2 _ (List.mem_singleton_self _) not_isText_loneHalf⟩
  · constructor
    · rw [Json.valuesOf_map_codes]
      rfl
    · rw [Json.valuesOf_map_codes]
      rfl
    · rintro depth ⟨⟩
    · rw [Json.valuesOf_map_codes]
      exact .cons (.name .posix) .nil
  · rw [Json.valuesOf_map_codes]
    decide

/-- An object without any setting is no description of the defaults when one of its keys is half
    of a surrogate pair. -/
theorem parse?_loneHalf :
    Json.Writes (.object [([0xd800], .ofNat 1)]) "\x7b\"\\ud800\":1\x7d".toList ∧
      Settings.WrittenBy {} [([0xd800], .ofNat 1)] ∧
      parse? "\x7b\"\\ud800\":1\x7d" ≠ some {} := by
  refine ⟨writes_loneHalf, ⟨rfl, rfl, ?_, ?_⟩, by decide +kernel⟩
  · rintro depth ⟨⟩
  · exact .nil

end Dialect

end PatternTree
