import ToolGraph.Config.Resolve
import ToolGraph.Proofs.Exchange
import ToolGraph.Proofs.Json.Reading
import ToolGraph.Proofs.Schema

/-!
Which layer decides a setting. The layers are merged into one record, which is checked as a whole;
for every key that comes to the first layer that sets the key, whatever is set for other keys.
-/
namespace ToolGraph
open Schema

inductive Setting where
  | defaultModel
  | timeout
  | requestTimeout
  | maxConcurrency
  | maxRetries
  | verifySsl
  | enabled
  | ttlSeconds
  deriving DecidableEq, Repr

namespace Setting

/-- The section that a key belongs to. -/
def group : Setting → String
  | .enabled | .ttlSeconds => "cache"
  | _ => "loader"

def name : Setting → String
  | .defaultModel => "default_model"
  | .timeout => "timeout"
  | .requestTimeout => "request_timeout"
  | .maxConcurrency => "max_concurrency"
  | .maxRetries => "max_retries"
  | .verifySsl => "verify_ssl"
  | .enabled => "enabled"
  | .ttlSeconds => "ttl_seconds"

/-- What a key may be set to. -/
abbrev Data : Setting → Type
  | .defaultModel => String
  | .timeout => Option Binary64
  | .requestTimeout => Binary64
  | .maxConcurrency | .maxRetries | .ttlSeconds => Int
  | .verifySsl | .enabled => Bool

def check : (key : Setting) → Value → Checked key.Data
  | .defaultModel => text
  | .timeout => optional number
  | .requestTimeout => number
  | .maxConcurrency => wholeFrom 1
  | .maxRetries => wholeFrom 0
  | .verifySsl | .enabled => bool
  | .ttlSeconds => whole

def initial : (key : Setting) → key.Data
  | .defaultModel => LoaderSettings.initial.defaultModel
  | .timeout => LoaderSettings.initial.timeout
  | .requestTimeout => LoaderSettings.initial.requestTimeout
  | .maxConcurrency => LoaderSettings.initial.maxConcurrency
  | .maxRetries => LoaderSettings.initial.maxRetries
  | .verifySsl => LoaderSettings.initial.verifySsl
  | .enabled => CacheSettings.initial.enabled
  | .ttlSeconds => CacheSettings.initial.ttlSeconds

def get (settings : Settings) : (key : Setting) → key.Data
  | .defaultModel => settings.loader.defaultModel
  | .timeout => settings.loader.timeout
  | .requestTimeout => settings.loader.requestTimeout
  | .maxConcurrency => settings.loader.maxConcurrency
  | .maxRetries => settings.loader.maxRetries
  | .verifySsl => settings.loader.verifySsl
  | .enabled => settings.cache.enabled
  | .ttlSeconds => settings.cache.ttlSeconds

def given? (key : Setting) (data : Value) : Option Value := (data.get key.group).member? key.name

def settle (key : Setting) (given : Option Value) : Checked key.Data :=
  given.elim (.valid key.initial) key.check

end Setting

/-! ### Checked records -/

namespace Schema

theorem field_eq_settled {α : Type} {entries : List (Value × Value)} {name : String}
    {check : Value → Checked α} {fallback value : α} :
    field entries [name] check (some fallback) = .valid value ↔
      (Value.entry? entries (.text name)).elim (.valid fallback) check = .valid value := by
  cases found : Value.entry? entries (.text name) with
  | none => rw [field_of_missing (by simpa using found)]; rfl
  | some given => rw [field_of_entry found, Checked.within_eq_valid]; rfl

end Schema

theorem LoaderSettings.check_eq_valid {entries : List (Value × Value)} {loader : LoaderSettings} :
    LoaderSettings.check (.map entries) = .valid loader ↔
      field entries ["default_model"] text (some initial.defaultModel) =
        .valid loader.defaultModel ∧
      field entries ["timeout"] (optional number) (some initial.timeout) = .valid loader.timeout ∧
      field entries ["request_timeout"] number (some initial.requestTimeout) =
        .valid loader.requestTimeout ∧
      field entries ["max_concurrency"] (wholeFrom 1) (some initial.maxConcurrency) =
        .valid loader.maxConcurrency ∧
      field entries ["max_retries"] (wholeFrom 0) (some initial.maxRetries) =
        .valid loader.maxRetries ∧
      field entries ["verify_ssl"] bool (some initial.verifySsl) = .valid loader.verifySsl := by
  simp only [check, record, Checked.seq_eq_valid, Checked.map_eq_valid]
  constructor
  · rintro ⟨_, ⟨_, ⟨_, ⟨_, ⟨_, ⟨_, model, rfl⟩, _, timeout, rfl⟩, _, request, rfl⟩, _, many, rfl⟩,
      _, retries, rfl⟩, _, verify, rfl⟩
    exact ⟨model, timeout, request, many, retries, verify⟩
  · rintro ⟨model, timeout, request, many, retries, verify⟩
    exact ⟨_, ⟨_, ⟨_, ⟨_, ⟨_, ⟨_, model, rfl⟩, _, timeout, rfl⟩, _, request, rfl⟩, _, many, rfl⟩, _,
      retries, rfl⟩, _, verify, rfl⟩

theorem CacheSettings.check_eq_valid {entries : List (Value × Value)} {cache : CacheSettings} :
    CacheSettings.check (.map entries) = .valid cache ↔
      field entries ["enabled"] bool (some initial.enabled) = .valid cache.enabled ∧
      field entries ["ttl_seconds"] whole (some initial.ttlSeconds) = .valid cache.ttlSeconds := by
  simp only [check, record, Checked.seq_eq_valid, Checked.map_eq_valid]
  constructor
  · rintro ⟨_, ⟨_, enabled, rfl⟩, _, seconds, rfl⟩
    exact ⟨enabled, seconds⟩
  · rintro ⟨enabled, seconds⟩
    exact ⟨_, ⟨_, enabled, rfl⟩, _, seconds, rfl⟩

theorem LoaderSettings.check_empty : LoaderSettings.check (.map []) = .valid initial := by
  simp [check_eq_valid, field, lookup?, Value.entry?]

theorem CacheSettings.check_empty : CacheSettings.check (.map []) = .valid initial := by
  simp [check_eq_valid, field, lookup?, Value.entry?]

namespace Schema

theorem exists_map_of_record {α : Type} {check : List (Value × Value) → Checked α}
    {data : Value} {value : α} (valid : record check data = .valid value) :
    ∃ entries, data = .map entries := by
  cases data with
  | map entries => exact ⟨entries, rfl⟩
  | _ => simp [record, Checked.issue] at valid

theorem exists_entries_of_field {α : Type} {check : List (Value × Value) → Checked α}
    {initial value : α} {entries : List (Value × Value)} {name : String}
    (valid : field entries [name] (record check) (some initial) = .valid value)
    (empty : record check (.map []) = .valid initial) :
    ∃ own, check own = .valid value ∧
      ∀ key, ((Value.map entries).get name).member? key = Value.entry? own (.text key) := by
  rw [field_eq_settled] at valid
  cases found : Value.entry? entries (.text name) with
  | none =>
    rw [found] at valid
    refine ⟨[], empty.trans valid, fun key => ?_⟩
    simp only [Value.get, Value.member?, found]
    rfl
  | some given =>
    rw [found] at valid
    obtain ⟨own, rfl⟩ := exists_map_of_record valid
    refine ⟨own, valid, fun key => ?_⟩
    simp only [Value.get, Value.member?, found, Option.getD_some]

end Schema

namespace Setting

theorem settle_loader {entries : List (Value × Value)} {loader : LoaderSettings}
    (valid : LoaderSettings.check (.map entries) = .valid loader) (cache : CacheSettings)
    {key : Setting} (here : key.group = "loader") :
    key.settle (Value.entry? entries (.text key.name)) = .valid (key.get ⟨loader, cache⟩) := by
  obtain ⟨model, timeout, request, many, retries, verify⟩ :=
    LoaderSettings.check_eq_valid.mp valid
  cases key with
  | defaultModel => exact field_eq_settled.mp model
  | timeout => exact field_eq_settled.mp timeout
  | requestTimeout => exact field_eq_settled.mp request
  | maxConcurrency => exact field_eq_settled.mp many
  | maxRetries => exact field_eq_settled.mp retries
  | verifySsl => exact field_eq_settled.mp verify
  | enabled | ttlSeconds => exact absurd here (by decide)

theorem settle_cache {entries : List (Value × Value)} {cache : CacheSettings}
    (valid : CacheSettings.check (.map entries) = .valid cache) (loader : LoaderSettings)
    {key : Setting} (here : key.group = "cache") :
    key.settle (Value.entry? entries (.text key.name)) = .valid (key.get ⟨loader, cache⟩) := by
  obtain ⟨enabled, seconds⟩ := CacheSettings.check_eq_valid.mp valid
  cases key with
  | enabled => exact field_eq_settled.mp enabled
  | ttlSeconds => exact field_eq_settled.mp seconds
  | _ => exact absurd here (by decide)

theorem group_cases (key : Setting) : key.group = "loader" ∨ key.group = "cache" := by
  cases key <;> decide

theorem settle_of_check {data : Value} {settings : Settings}
    (valid : Settings.check data = .valid settings) (key : Setting) :
    key.settle (key.given? data) = .valid (key.get settings) := by
  obtain ⟨entries, rfl⟩ := exists_map_of_record valid
  simp only [Settings.check, record, Checked.seq_eq_valid, Checked.map_eq_valid] at valid
  obtain ⟨_, ⟨loader, ofLoader, rfl⟩, cache, ofCache, rfl⟩ := valid
  obtain ⟨own, loaded, loaderKeys⟩ := exists_entries_of_field ofLoader LoaderSettings.check_empty
  obtain ⟨other, cached, cacheKeys⟩ := exists_entries_of_field ofCache CacheSettings.check_empty
  rcases key.group_cases with here | here
  · rw [given?, here, loaderKeys]
    exact settle_loader loaded cache here
  · rw [given?, here, cacheKeys]
    exact settle_cache cached loader here

/-! ### Settings as data -/

def data : (key : Setting) → key.Data → Value
  | .defaultModel => .text
  | .timeout => fun seconds => (seconds.map Value.float).getD .null
  | .requestTimeout => .float
  | .maxConcurrency | .maxRetries | .ttlSeconds => .int
  | .verifySsl | .enabled => .bool

theorem le_of_wholeFrom {least number : Int} {given : Value}
    (valid : wholeFrom least given = .valid number) : least ≤ number := by
  unfold wholeFrom at valid
  split at valid
  next =>
    split at valid
    next enough => exact Checked.valid.inj valid ▸ enough
    next => simp [Checked.issue] at valid
  next => simp at valid

theorem check_data {key : Setting} {given : Option Value} {value : key.Data}
    (settled : key.settle given = .valid value) : key.check (key.data value) = .valid value := by
  have bounded : ∀ {least first number : Int} {given : Option Value}, least ≤ first →
      given.elim (.valid first) (wholeFrom least) = .valid number →
        wholeFrom least (.int number) = .valid number := by
    intro least first number given start settled
    have enough : least ≤ number := by
      cases given with
      | none => exact Checked.valid.inj settled ▸ start
      | some given => exact le_of_wholeFrom settled
    simp only [wholeFrom, whole, if_pos enough]
  cases key with
  | timeout => cases value <;> rfl
  | maxConcurrency => exact bounded (by decide) settled
  | maxRetries => exact bounded (by decide) settled
  | defaultModel | requestTimeout | verifySsl | enabled | ttlSeconds => rfl

def entries (key : Setting) (sections : Config.Sections) : List (Value × Value) :=
  if key.group = "loader" then sections.loader else sections.cache

theorem given?_toValue (sections : Config.Sections) (key : Setting) :
    key.given? sections.toValue = Value.entry? (key.entries sections) (.text key.name) := by
  cases key <;> rfl

theorem given?_ofSettings (settings : Settings) (key : Setting) :
    key.given? (Config.Sections.ofSettings settings).toValue =
      some (key.data (key.get settings)) := by
  obtain ⟨⟨_, timeout, _, _, _, _⟩, _⟩ := settings
  cases key with
  | timeout => cases timeout <;> rfl
  | _ => rfl

/-! ### Layers on top of each other -/

theorem entry?_update (entries : List (Value × Value)) {members : List (String × Json)}
    (distinct : (Entries.keys members).Nodup) (name : String) :
    Value.entry? (Config.Sections.update entries (Value.ofMembers members)) (.text name) =
      (Value.entry? (Value.ofMembers members) (.text name)).or
        (Value.entry? entries (.text name)) := by
  induction members generalizing entries with
  | nil => rfl
  | cons member members ih =>
    obtain ⟨key, json⟩ := member
    obtain ⟨new, distinct⟩ := List.nodup_cons.mp distinct
    have step := ih (Value.putEntry entries (.text key) (.ofJson json)) distinct
    rw [Value.ofMembers, Value.entry?_cons]
    refine step.trans ?_
    rw [Value.entry?_putEntry]
    by_cases same : key = name
    · subst same
      have missing : Value.entry? (Value.ofMembers members) (.text key) = none := by
        rw [Value.entry?_ofMembers, Entries.get?_eq_none_iff.mpr new]
        rfl
      simp [missing]
    · simp [same]

/-- An object on top of a section. What is no object changes nothing. -/
theorem entry?_update_entries (entries : List (Value × Value)) {json : Json}
    (distinct : json.HasDistinctKeys) (name : String) :
    Value.entry? (Config.Sections.update entries (Value.ofJson json).entries) (.text name) =
      ((Value.ofJson json).member? name).or (Value.entry? entries (.text name)) := by
  cases distinct with
  | object distinct => exact entry?_update entries distinct name
  | _ => rfl

theorem exists_get_ofJson {members : List (String × Json)}
    (distinct : (Json.object members).HasDistinctKeys) (name : String) :
    ∃ json : Json, json.HasDistinctKeys ∧
      (Value.ofJson (.object members)).get name = .ofJson json := by
  have each : ∀ member ∈ members, member.2.HasDistinctKeys := by
    cases distinct with
    | object _ each => exact each
  have value : (Value.ofJson (.object members)).get name =
      ((Entries.get? members name).map Value.ofJson).getD .null := by
    rw [← Value.entry?_ofMembers]
    rfl
  cases found : Entries.get? members name with
  | none => exact ⟨.null, .null, by rw [value, found]; rfl⟩
  | some json => exact ⟨json, each _ (Entries.mem_of_get? found), by rw [value, found]; rfl⟩

theorem given?_withProject (sections : Config.Sections) {members : List (String × Json)}
    (distinct : (Json.object members).HasDistinctKeys) (key : Setting) :
    key.given? (sections.withProject (.ofJson (.object members))).toValue =
      (key.given? (.ofJson (.object members))).or (key.given? sections.toValue) := by
  rw [given?_toValue, given?_toValue, given?]
  obtain ⟨json, proper, same⟩ := exists_get_ofJson distinct key.group
  have layered : key.entries (sections.withProject (.ofJson (.object members))) =
      Config.Sections.update (key.entries sections)
        ((Value.ofJson (.object members)).get key.group).entries := by
    rcases key.group_cases with here | here <;> simp [entries, here, Config.Sections.withProject]
  rw [layered, same]
  exact entry?_update_entries (key.entries sections) proper key.name

theorem name_injective : Function.Injective name := by
  intro one two same
  cases one <;> cases two <;> first | rfl | exact absurd same (by decide)

theorem given?_withLoader (sections : Config.Sections) (target : Setting)
    (here : target.group = "loader") (value : Option Value) (key : Setting) :
    key.given? (sections.withLoader target.name value).toValue =
      (if key = target then value else none).or (key.given? sections.toValue) := by
  rw [given?_toValue, given?_toValue]
  cases value with
  | none =>
    simp only [Config.Sections.withLoader, Config.Sections.update, entries, Option.toList_none,
      List.map_nil, List.foldl_nil, ite_self, Option.none_or]
  | some value =>
    rcases key.group_cases with inLoader | inCache
    · simp only [Config.Sections.withLoader, Config.Sections.update, entries, inLoader, if_true,
        Option.toList_some, List.map_cons, List.map_nil, List.foldl_cons, List.foldl_nil,
        Value.entry?_putEntry, name_injective.eq_iff]
      by_cases same : key = target
      · simp [same]
      · simp [same, Ne.symm same]
    · have other : key ≠ target := by
        rintro rfl
        simp [here] at inCache
      simp only [Config.Sections.withLoader, entries, inCache, if_neg other, Option.none_or]
      rfl

end Setting

/-! ### The layers of a resolution -/

/-- What is given directly for a key. -/
def Overrides.value? (overrides : Overrides) : Setting → Option Value
  | .defaultModel => overrides.model
  | .timeout => overrides.timeout
  | _ => none

namespace Config

def environment? (host : Host) : Setting → Option Value
  | .defaultModel => environmentModel host
  | .timeout => (environmentTimeout host).toOption.join
  | _ => none

def file? (host : Host) (tree : FileTree) (layer : Layer) (key : Setting) : Option Value :=
  (readLayer host layer tree).toOption.join.bind (fun members =>
    key.given? (.ofJson (.object members)))

/-- What each layer sets a key to, the first one that counts first. -/
def layers (host : Host) (overrides : Overrides) (tree : FileTree) (key : Setting) :
    List (Option Value) :=
  [overrides.value? key, environment? host key, file? host tree .project key,
    file? host tree .user key]

theorem hasDistinctKeys_of_readLayer {host : Host} {layer : Layer} {tree : FileTree}
    {members : List (String × Json)} (read : readLayer host layer tree = .ok (some members)) :
    (Json.object members).HasDistinctKeys := by
  unfold readLayer at read
  simp only at read
  split at read
  next =>
    obtain ⟨_, content, same⟩ := map_eq_ok.mp read
    obtain rfl := Option.some.inj same
    unfold readObject at content
    split at content
    next => simp at content
    next =>
      split at content
      next => simp at content
      next =>
        split at content
        next => simp at content
        next =>
          split at content
          next parsed =>
            obtain rfl := Except.ok.inj content
            exact Json.hasDistinctKeys_of_parse parsed
          all_goals simp at content
  next => simp at read

theorem settle_userSettings {host : Host} {tree : FileTree} {settings : Settings}
    (user : userSettings host tree = .ok settings) (key : Setting) :
    key.settle (file? host tree .user key) = .valid (key.get settings) := by
  obtain ⟨members, read, user⟩ := bind_eq_ok.mp user
  cases members with
  | none =>
    obtain rfl := pure_eq_ok.mp user
    simp only [file?, read, Except.toOption, Option.join_some, Option.bind_none]
    cases key <;> rfl
  | some members =>
    simp only at user
    split at user
    next own valid =>
      obtain rfl := pure_eq_ok.mp user
      rw [file?, read]
      exact Setting.settle_of_check valid key
    next => exact absurd user throw_ne_ok

theorem findSome?_id {α : Type} (first : Option α) (rest : List (Option α)) :
    (first :: rest).findSome? id = first.or (rest.findSome? id) := by
  cases first <;> rfl

theorem given?_merged {host : Host} (overrides : Overrides) (user : Settings)
    {members : List (String × Json)} (distinct : (Json.object members).HasDistinctKeys)
    {seconds : Option Value} (timed : environmentTimeout host = .ok seconds) (key : Setting) :
    key.given?
        ((((((Sections.ofSettings user).withProject (.ofJson (.object members))).withLoader
          "default_model" (environmentModel host)).withLoader "timeout" seconds).withLoader
            "default_model" overrides.model).withLoader "timeout" overrides.timeout).toValue =
      (overrides.value? key).or ((environment? host key).or
        ((key.given? (.ofJson (.object members))).or (some (key.data (key.get user))))) := by
  have model := fun sections value =>
    Setting.given?_withLoader sections .defaultModel rfl value key
  have timeout := fun sections value => Setting.given?_withLoader sections .timeout rfl value key
  simp only [Setting.name] at model timeout
  rw [timeout, model, timeout, model, Setting.given?_withProject _ distinct,
    Setting.given?_ofSettings]
  cases key <;> simp [Overrides.value?, environment?, timed, Except.toOption]

/-- The settings in effect have for each key what the first layer sets that sets the key, checked,
or the initial value where no layer does. -/
theorem settle_of_resolve {host : Host} {overrides : Overrides} {tree : FileTree}
    {settings : Settings} (resolved : resolve host overrides tree = .ok settings) (key : Setting) :
    key.settle ((layers host overrides tree key).findSome? id) = .valid (key.get settings) := by
  obtain ⟨user, ofUser, resolved⟩ := bind_eq_ok.mp resolved
  obtain ⟨project, ofProject, resolved⟩ := bind_eq_ok.mp resolved
  obtain ⟨seconds, timed, resolved⟩ := bind_eq_ok.mp resolved
  simp only at resolved
  split at resolved
  next own valid =>
    obtain rfl := pure_eq_ok.mp resolved
    have distinct : (Json.object (project.getD [])).HasDistinctKeys := by
      cases project with
      | none => exact .object List.nodup_nil (by simp)
      | some members => exact hasDistinctKeys_of_readLayer ofProject
    have ofFile : file? host tree .project key =
        key.given? (.ofJson (.object (project.getD []))) := by
      rw [file?, ofProject]
      cases project with
      | none => cases key <;> rfl
      | some members => rfl
    have settled := Setting.settle_of_check valid key
    rw [given?_merged overrides user distinct timed, ← ofFile] at settled
    have ofUser := settle_userSettings ofUser key
    simp only [layers, findSome?_id, List.findSome?_nil, Option.or_none]
    revert settled
    -- The user's own value only counts where none of the layers above sets the key.
    cases overrides.value? key with
    | some value => exact id
    | none =>
      cases environment? host key with
      | some value => exact id
      | none =>
        cases file? host tree .project key with
        | some value => exact id
        | none =>
          intro settled
          have kept : key.get user = key.get own :=
            Checked.valid.inj ((Setting.check_data ofUser).symm.trans settled)
          exact ofUser.trans (congrArg _ kept)
  next => exact absurd resolved throw_ne_ok

/-- For every key the first layer counts that sets it: the command line, the environment, the file
of the project, the file of the user. What layers set for other keys does not matter. -/
theorem first_layer_counts {host : Host} {overrides : Overrides} {tree : FileTree}
    {settings : Settings} (resolved : resolve host overrides tree = .ok settings) :
    (∀ key : Setting, key.settle ((layers host overrides tree key).findSome? id) =
      .valid (key.get settings)) ∧
    ∀ {host' : Host} {overrides' : Overrides} {tree' : FileTree} {settings' : Settings},
      resolve host' overrides' tree' = .ok settings' → ∀ key : Setting,
        layers host overrides tree key = layers host' overrides' tree' key →
          key.get settings = key.get settings' := by
  refine ⟨settle_of_resolve resolved, ?_⟩
  intro host' overrides' tree' settings' resolved' key same
  have settled := settle_of_resolve resolved key
  rw [same] at settled
  exact Checked.valid.inj (settled.symm.trans (settle_of_resolve resolved' key))

def desk : Host where
  platform := "Linux"
  environment := [("TOOLSCRIBE_DEFAULT_MODEL", "")]
  home := "/home".toList
  cwd := "/work".toList

/-- The files of a user and of a project, which takes the user's timeout back. -/
def deskFiles : FileTree :=
  ⟨[("/home/.config/toolscribe/config.json".toList, Text.encode
      "\x7b\"loader\": \x7b\"max_retries\": \"5\", \"timeout\": 9\x7d\x7d".toList),
    ("/work/toolscribe.json".toList, Text.encode
      ("\x7b\"loader\": \x7b\"timeout\": null, \"default_model\": \"p\"\x7d, " ++
        "\"cache\": 3\x7d").toList)], []⟩

set_option maxRecDepth 10000 in
theorem desk_first_layer_counts : ∃ settings, resolve desk {} deskFiles = .ok settings ∧
    (∀ key : Setting, key.settle ((layers desk {} deskFiles key).findSome? id) =
      .valid (key.get settings)) ∧
    settings.loader.defaultModel = "p" ∧ settings.loader.timeout = none ∧
      settings.loader.maxRetries = 5 ∧ settings.cache.ttlSeconds = 300 := by
  have shape : (resolve desk {} deskFiles).toOption.map (fun settings =>
      (settings.loader.defaultModel, settings.loader.timeout, settings.loader.maxRetries,
        settings.cache.ttlSeconds)) = some ("p", none, 5, 300) := by
    decide +kernel
  cases resolved : resolve desk {} deskFiles with
  | error error => simp [resolved, Except.toOption] at shape
  | ok settings =>
    simp only [resolved, Except.toOption, Option.map_some, Option.some.injEq, Prod.mk.injEq]
      at shape
    exact ⟨settings, rfl, (first_layer_counts resolved).1, shape⟩

end Config
end ToolGraph
