import DChat.Config

/-!
# JsonConfig — the configuration file and the copy of it in memory

The constructor of `JsonConfig` reads the file once and keeps the strings in it.  `isValid` looks
for the four fields in this copy and for the list of peers in the file.  `generatedDefaultConfig`
writes the file and leaves the copy as it is, so after a repair the two may disagree.

The free port and the random bytes of a generated configuration come from outside.  That the system
gives no port, no key pair or no file to write to is left out.
-/

namespace DChat

open Utils Crypto Fallible

/-- `config::ConfigField`. -/
inductive ConfigField
  | host
  | port
  | publicKey
  | privateKey
  deriving DecidableEq, Repr

namespace IConfig

/-- `CONFIG_FIELDS`. -/
def configFields : List ConfigField := [.host, .port, .publicKey, .privateKey]

def configFieldToString : ConfigField → String
  | .host => "host"
  | .port => "port"
  | .publicKey => "public_key"
  | .privateKey => "private_key"

def stringToConfigField (key : String) : Except Exn ConfigField :=
  if key = "host" then .ok .host
  else if key = "port" then .ok .port
  else if key = "public_key" then .ok .publicKey
  else if key = "private_key" then .ok .privateKey
  else .error (.std "Unknown config field")

theorem mem_configFields (f : ConfigField) : f ∈ configFields := by
  cases f <;> decide

/-- A name belongs to one field. -/
theorem stringToConfigField_eq_ok {key : String} {f : ConfigField} :
    stringToConfigField key = .ok f ↔ key = configFieldToString f := by
  constructor
  · intro h
    rw [stringToConfigField] at h
    split_ifs at h with hhost hport hpublic hprivate
    · cases h
      exact hhost
    · cases h
      exact hport
    · cases h
      exact hpublic
    · cases h
      exact hprivate
  · rintro rfl
    cases f <;> rfl

theorem configFieldToString_injective : Function.Injective configFieldToString := by
  intro f g h
  have hf : stringToConfigField (configFieldToString f) = .ok f := stringToConfigField_eq_ok.2 rfl
  rw [h, stringToConfigField_eq_ok.2 rfl] at hf
  exact (Except.ok.inj hf).symm

end IConfig

open IConfig

/-! ## The file -/

/-- The members of an object have different names, since the library keeps them in a map. -/
def Json.DistinctKeys : Json → Prop
  | .object kvs => (kvs.map Prod.fst).Nodup
  | _ => True

/-- What is at the path: nothing, a text that does not parse, or a value. -/
inductive JsonFile
  | missing
  | malformed (what : String)
  | value (j : Json) (distinct : j.DistinctKeys)

/-- `JsonFile::read`. -/
def JsonFile.read : JsonFile → Except Exn Json
  | .missing => .error (.std "Cannot open file")
  | .malformed what => .error (.std ("Error reading JSON file: " ++ what))
  | .value j _ => .ok j

/-- The string under a name. -/
def Json.stringAt (j : Json) (name : String) : Option String :=
  match j.field name with
  | .ok (.string s) => some s
  | _ => none

/-- `jData.contains("trustedPeerList") && jData["trustedPeerList"].is_array()`. -/
def Json.hasPeerList (j : Json) : Bool :=
  match j.field "trustedPeerList" with
  | .ok value => value.array?.isSome
  | .error _ => false

/-! ## The object -/

/-- `config::JsonConfig`. -/
structure JsonConfig where
  jsonFile : JsonFile
  data : ConfigField → Option String

namespace JsonConfig

variable (E : Env)

/-- What a generated configuration draws from outside. -/
structure Draw where
  freePort : UInt16
  rnd : Rand

/-- The value that `generatedDefaultConfig` writes. -/
def defaultConfig (draw : Draw) : Json :=
  let keyPair := E.crypto.generateKeyPair draw.rnd
  .object [("host", .string "127.0.0.1"), ("port", .string (toString draw.freePort.toNat)),
    ("public_key", .string (E.crypto.keyToString keyPair.publicKey)),
    ("private_key", .string (E.crypto.keyToString keyPair.privateKey)),
    ("trustedPeerList", .array [])]

/-- The file after `generatedDefaultConfig`. -/
def defaultFile (draw : Draw) : JsonFile :=
  .value (defaultConfig E draw) (by
    show List.Nodup ["host", "port", "public_key", "private_key", "trustedPeerList"]
    decide)

/-- `JsonConfig::generatedDefaultConfig`: only the file changes. -/
def generatedDefaultConfig (draw : Draw) (c : JsonConfig) : JsonConfig :=
  { c with jsonFile := defaultFile E draw }

/-- The pairs that the iterator of the constructor runs through; an element of anything but an
object has no key. -/
def entries : Json → Except Exn (List (String × Json))
  | .object kvs => .ok kvs
  | .null => .ok []
  | .array [] => .ok []
  | _ =>
    .error (.json "[json.exception.invalid_iterator.207] cannot use key() for non-object iterators")

/-- The loop of the constructor. -/
def loadEntries : List (String × Json) → (ConfigField → Option String) →
    Except Exn (ConfigField → Option String)
  | [], data => .ok data
  | (key, .string s) :: rest, data => do
      let field ← stringToConfigField key
      loadEntries rest (Function.update data field (some s))
  | _ :: rest, data => loadEntries rest data

def load (jData : Json) : Except Exn (ConfigField → Option String) := do
  loadEntries (← entries jData) fun _ => none

/-- The file after the first attempt of the constructor to read it. -/
def opened (draw : Draw) (jsonFile : JsonFile) : JsonFile :=
  match jsonFile.read with
  | .error (.std what) => if what = "Cannot open file" then defaultFile E draw else jsonFile
  | _ => jsonFile

/-- `JsonConfig::JsonConfig`: a missing file is generated, and read like any other. -/
def create (draw : Draw) (jsonFile : JsonFile) : Except Exn JsonConfig := do
  let jsonFile := opened E draw jsonFile
  let jData ← jsonFile.read
  let data ← load jData
  return { jsonFile, data }

/-- `JsonConfig::get`; `none` is what `at` throws. -/
def get (c : JsonConfig) (field : ConfigField) : Option String := c.data field

/-- `JsonConfig::isValid`. -/
def isValid (c : JsonConfig) : Except Exn Bool :=
  if configFields.all fun field => (c.data field).isSome then
    c.jsonFile.read.map Json.hasPeerList
  else
    .ok false

/-- The repair step of `ChatApplication::init`. -/
def repair (draw : Draw) (c : JsonConfig) : Except Exn JsonConfig := do
  if ← c.isValid then return c else return generatedDefaultConfig E draw c

/-- The configuration is valid, and every field has a value, the one in the file. -/
structure Usable (c : JsonConfig) : Prop where
  valid : c.isValid = .ok true
  current : ∀ field, ∃ value j, c.get field = some value ∧ c.jsonFile.read = .ok j ∧
    j.stringAt (configFieldToString field) = some value

/-- The value has a string for every field and a list of peers. -/
def Complete (j : Json) : Prop :=
  (∀ field, (j.stringAt (configFieldToString field)).isSome) ∧ j.hasPeerList = true

variable {E}

/-! ## What the constructor keeps -/

theorem stringAt_cons_string (key name s : String) (kvs : List (String × Json)) :
    (Json.object ((key, .string s) :: kvs)).stringAt name =
      if name = key then some s else (Json.object kvs).stringAt name := by
  rw [Json.stringAt, Json.field_cons]
  by_cases h : name = key <;> simp [h, Json.stringAt]

theorem stringAt_eq_none {name : String} {kvs : List (String × Json)}
    (h : name ∉ kvs.map Prod.fst) : (Json.object kvs).stringAt name = none := by
  have hlookup : kvs.lookup name = none := by
    rw [List.lookup_eq_none_iff]
    intro x hx
    simpa using fun heq : name = x.1 => h (heq ▸ List.mem_map_of_mem hx)
  simp [Json.stringAt, Json.field, hlookup]

/-- What is not a string is skipped, and is no string under its name. -/
theorem stringAt_cons_other {key name : String} {w : Json} {kvs : List (String × Json)}
    (hother : ∀ s, w ≠ .string s) (hfresh : key ∉ kvs.map Prod.fst) :
    (Json.object ((key, w) :: kvs)).stringAt name = (Json.object kvs).stringAt name := by
  rw [Json.stringAt, Json.field_cons]
  by_cases h : name = key
  · rw [if_pos h, stringAt_eq_none (h ▸ hfresh)]
    cases w with
    | string s => exact absurd rfl (hother s)
    | _ => rfl
  · rw [if_neg h, Json.stringAt]

/-- The loop keeps the strings of the object. -/
theorem loadEntries_spec {kvs : List (String × Json)} {old data : ConfigField → Option String}
    (hdistinct : (kvs.map Prod.fst).Nodup) (h : loadEntries kvs old = .ok data)
    (field : ConfigField) :
    data field =
      ((Json.object kvs).stringAt (configFieldToString field)).or (old field) := by
  induction kvs generalizing old with
  | nil =>
      cases h
      rfl
  | cons x xs ih =>
      rcases x with ⟨key, w⟩
      rw [List.map_cons, List.nodup_cons] at hdistinct
      rcases hdistinct with ⟨hfresh, hdistinct⟩
      -- the loop skips every value that is no string
      by_cases hstring : ∃ s, w = .string s
      · rcases hstring with ⟨s, rfl⟩
        rcases bind_eq_ok.1 h with ⟨found, hname, hrest⟩
        rw [stringToConfigField_eq_ok] at hname
        subst hname
        rw [ih hdistinct hrest, stringAt_cons_string]
        -- keys are distinct, so this entry is the last word on its field
        by_cases hfield : field = found
        · rw [hfield, if_pos rfl, stringAt_eq_none hfresh, Function.update_self, Option.none_or,
            Option.some_or]
        · have hname : configFieldToString field ≠ configFieldToString found :=
            fun heq => hfield (configFieldToString_injective heq)
          rw [if_neg hname, Function.update_of_ne hfield]
      · have hother : ∀ s, w ≠ .string s := fun s heq => hstring ⟨s, heq⟩
        have hskip : loadEntries xs old = .ok data := by
          cases w with
          | string s => exact absurd rfl (hother s)
          | _ => exact h
        rw [ih hdistinct hskip, stringAt_cons_other hother hfresh]

/-- What a value without members gives for a name. -/
theorem stringAt_of_entries {j : Json} {kvs : List (String × Json)} (h : entries j = .ok kvs)
    (name : String) : j.stringAt name = (Json.object kvs).stringAt name := by
  cases j with
  | object kvs' =>
      cases h
      rfl
  | null =>
      cases h
      rfl
  | array xs =>
      cases xs with
      | nil =>
          cases h
          rfl
      | cons x xs => cases h
  | _ => cases h

theorem nodup_of_entries {j : Json} {kvs : List (String × Json)} (h : entries j = .ok kvs)
    (hdistinct : j.DistinctKeys) : (kvs.map Prod.fst).Nodup := by
  cases j with
  | object kvs' =>
      cases h
      exact hdistinct
  | null =>
      cases h
      exact List.nodup_nil
  | array xs =>
      cases xs with
      | nil =>
          cases h
          exact List.nodup_nil
      | cons x xs => cases h
  | _ => cases h

theorem load_spec {j : Json} {data : ConfigField → Option String} (hdistinct : j.DistinctKeys)
    (h : load j = .ok data) (field : ConfigField) :
    data field = j.stringAt (configFieldToString field) := by
  rcases bind_eq_ok.1 h with ⟨kvs, hentries, hloop⟩
  rw [loadEntries_spec (nodup_of_entries hentries hdistinct) hloop, stringAt_of_entries hentries,
    Option.or_none]

theorem opened_malformed (draw : Draw) (what : String) :
    opened E draw (.malformed what) = .malformed what := by
  have hother : "Error reading JSON file: " ++ what ≠ "Cannot open file" := by
    intro h
    have hfirst := congrArg (fun s => s.toList.head?) h
    simp at hfirst
  simp only [opened, JsonFile.read, hother, if_false]

/-- The object starts with the strings of the file, which was generated when it was missing. -/
structure Loaded (E : Env) (draw : Draw) (jsonFile : JsonFile) (c : JsonConfig) (j : Json) :
    Prop where
  file : c.jsonFile.read = .ok j
  data : ∀ field, c.data field = j.stringAt (configFieldToString field)
  origin : (jsonFile = .missing ∧ j = defaultConfig E draw) ∨ jsonFile.read = .ok j

theorem loaded_of_create {draw : Draw} {jsonFile : JsonFile} {c : JsonConfig}
    (h : create E draw jsonFile = .ok c) : ∃ j, Loaded E draw jsonFile c j := by
  rcases bind_eq_ok.1 h with ⟨j, hread, hrest⟩
  rcases bind_pure_eq_ok.1 hrest with ⟨data, hload, rfl⟩
  refine ⟨j, hread, ?_, ?_⟩
  · cases hopened : opened E draw jsonFile with
    | missing =>
        rw [hopened] at hread
        cases hread
    | malformed what =>
        rw [hopened] at hread
        cases hread
    | value j' distinct =>
        rw [hopened] at hread
        cases hread
        exact load_spec distinct hload
  · -- a missing file is replaced by the default one before it is read
    cases jsonFile with
    | missing =>
        have hdefault : opened E draw .missing = defaultFile E draw := rfl
        rw [hdefault] at hread
        exact Or.inl ⟨rfl, (Except.ok.inj hread).symm⟩
    | malformed what =>
        rw [opened_malformed] at hread
        cases hread
    | value j' distinct => exact Or.inr hread

/-! ## The repair -/

theorem isValid_spec {c : JsonConfig} {j : Json} (hfile : c.jsonFile.read = .ok j) :
    ∃ valid, c.isValid = .ok valid ∧
      (valid = true ↔ (∀ field, (c.data field).isSome) ∧ j.hasPeerList = true) := by
  have hall : (configFields.all fun field => (c.data field).isSome) = true ↔
      ∀ field, (c.data field).isSome := by
    rw [List.all_eq_true]
    exact ⟨fun h field => h field (mem_configFields field), fun h field _ => h field⟩
  rw [isValid, hfile, ← hall]
  by_cases h : (configFields.all fun field => (c.data field).isSome) = true
  · exact ⟨j.hasPeerList, if_pos h, by simp [h]⟩
  · exact ⟨false, if_neg h, by simp [h]⟩

theorem complete_defaultConfig (E : Env) (draw : Draw) : Complete (defaultConfig E draw) := by
  refine ⟨?_, rfl⟩
  intro field
  cases field <;> rfl

theorem repair_of_valid {c : JsonConfig} (draw : Draw) (h : c.isValid = .ok true) :
    repair E draw c = .ok c := by
  rw [repair, h]
  rfl

theorem repair_of_invalid {c : JsonConfig} (draw : Draw) (h : c.isValid = .ok false) :
    repair E draw c = .ok (generatedDefaultConfig E draw c) := by
  rw [repair, h]
  rfl

/-- A generated file fits the old copy only where the strings are the same. -/
theorem usable_generated_iff {c : JsonConfig} {draw : Draw} :
    Usable (generatedDefaultConfig E draw c) ↔ ∀ field,
      c.data field = (defaultConfig E draw).stringAt (configFieldToString field) := by
  have hfile : (generatedDefaultConfig E draw c).jsonFile.read = .ok (defaultConfig E draw) := rfl
  -- the cache is the one loaded before the file was rewritten
  constructor
  · intro h field
    rcases h.current field with ⟨value, j, hget, hread, hvalue⟩
    rw [hfile] at hread
    rw [Except.ok.inj hread, hvalue]
    exact hget
  · intro hsame
    have hsome : ∀ field, ∃ value, c.data field = some value ∧
        (defaultConfig E draw).stringAt (configFieldToString field) = some value := by
      intro field
      rcases Option.isSome_iff_exists.1 ((complete_defaultConfig E draw).1 field) with
        ⟨value, hvalue⟩
      exact ⟨value, (hsame field).trans hvalue, hvalue⟩
    rcases isValid_spec hfile with ⟨valid, hvalid, hiff⟩
    -- a cache that repeats the default is complete, since the default is
    have htrue : valid = true := by
      refine hiff.2 ⟨?_, rfl⟩
      intro field
      rcases hsome field with ⟨value, hdata, _⟩
      exact Option.isSome_iff_exists.2 ⟨value, hdata⟩
    refine ⟨htrue ▸ hvalid, ?_⟩
    intro field
    rcases hsome field with ⟨value, hdata, hvalue⟩
    exact ⟨value, _, hdata, hfile, hvalue⟩

/-- After the repair the configuration is usable if and only if there was nothing to repair, or the
strings of the file happened to be those that were generated. -/
theorem repaired_usable_iff {made repaired : Draw} {jsonFile : JsonFile} {c : JsonConfig}
    (h : create E made jsonFile = .ok c) :
    (∃ c', repair E repaired c = .ok c' ∧ Usable c') ↔
      jsonFile = .missing ∨ ∃ j, jsonFile.read = .ok j ∧ (Complete j ∨
        ∀ field, j.stringAt (configFieldToString field) =
          (defaultConfig E repaired).stringAt (configFieldToString field)) := by
  rcases loaded_of_create h with ⟨j, hfile, hdata, horigin⟩
  rcases isValid_spec hfile with ⟨valid, hvalid, hiff⟩
  have hcomplete : valid = true ↔ Complete j := by
    rw [hiff, Complete]
    simp only [hdata]
  -- `isValid` looks at the cache, which still mirrors the file at this point
  cases valid with
  | true =>
      have hj : Complete j := hcomplete.1 rfl
      refine iff_of_true ⟨c, repair_of_valid repaired hvalid, hvalid, ?_⟩ ?_
      · intro field
        rcases Option.isSome_iff_exists.1 (hj.1 field) with ⟨value, hvalue⟩
        exact ⟨value, j, (hdata field).trans hvalue, hfile, hvalue⟩
      · -- complete: nothing is rewritten, and the loaded cache stays current
        rcases horigin with ⟨hmissing, _⟩ | hread
        · exact Or.inl hmissing
        · exact Or.inr ⟨j, hread, Or.inl hj⟩
  | false =>
      have hj : ¬ Complete j := fun hj => Bool.false_ne_true (hcomplete.2 hj)
      rcases horigin with ⟨_, rfl⟩ | hread
      · exact absurd (complete_defaultConfig E made) hj
      · -- incomplete: the file is rewritten, and the cache is left as it was
        rw [repair_of_invalid repaired hvalid]
        constructor
        · rintro ⟨c', hc', husable⟩
          rw [← Except.ok.inj hc', usable_generated_iff] at husable
          exact Or.inr ⟨j, hread, Or.inr fun field => (hdata field).symm.trans (husable field)⟩
        · rintro (hmissing | ⟨j', hread', hgood⟩)
          · rw [hmissing] at hread
            cases hread
          · rw [hread] at hread'
            cases hread'
            have hsame := hgood.resolve_left hj
            exact ⟨_, rfl, usable_generated_iff.2 fun field =>
              (hdata field).trans (hsame field)⟩

/-- What the outside gives. -/
def someDraw : Draw := { freePort := 8005, rnd := 7 }

theorem repaired_usable_missing :
    ∃ c, create testEnv someDraw .missing = .ok c ∧
      ∃ c', repair testEnv someDraw c = .ok c' ∧ Usable c' :=
  ⟨_, rfl, (repaired_usable_iff rfl).2 (Or.inl rfl)⟩

/-- From an empty object nothing is kept, so the repaired configuration is still not valid. -/
theorem empty_config_not_repaired :
    ∃ c, create testEnv someDraw (.value (.object []) List.nodup_nil) = .ok c ∧
      ¬ ∃ c', repair testEnv someDraw c = .ok c' ∧ Usable c' := by
  refine ⟨_, rfl, ?_⟩
  rw [repair_of_invalid someDraw rfl]
  rintro ⟨c', hc', husable⟩
  rw [← Except.ok.inj hc', usable_generated_iff] at husable
  exact absurd (husable .host) (by decide)

end JsonConfig
end DChat
