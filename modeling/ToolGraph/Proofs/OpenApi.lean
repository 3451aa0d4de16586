import ToolGraph.OpenApi.Tools
import ToolGraph.Proofs.Block

/-!
The tools of an interface description: the root tool and the operations, numbered one after the
other. The root tool maps the names of all operations, so none of its references is left open.
-/
namespace ToolGraph.OpenApi
open Entries

def idsFrom (location : String) (line count : Nat) : List String :=
  (List.range' line count).map (fun (line : Nat) => Block.idAt location line)

theorem mem_idsFrom {location : String} {line count : Nat} {id : String} :
    id ∈ idsFrom location line count ↔
      ∃ offset < count, id = Block.idAt location ((line + offset : Nat) : Int) := by
  simp only [idsFrom, List.mem_map, List.mem_range'_1]
  constructor
  · rintro ⟨place, ⟨above, below⟩, rfl⟩
    exact ⟨place - line, by omega, by rw [Nat.add_sub_cancel' above]⟩
  · rintro ⟨offset, below, rfl⟩
    exact ⟨line + offset, by omega, rfl⟩

theorem nodup_idsFrom (location : String) (line count : Nat) :
    (idsFrom location line count).Nodup := by
  refine List.Nodup.map ?_ List.nodup_range'
  intro one two same
  exact Int.ofNat.inj (Block.idAt_inj same).2

theorem idsFrom_succ (location : String) (line count : Nat) :
    idsFrom location line (count + 1) =
      Block.idAt location line :: idsFrom location (line + 1) count := by
  simp [idsFrom, List.range'_succ]

def namesFrom (location : String) (line : Nat) : List String → Entries String String
  | [] => []
  | name :: names =>
    (Text.lower name, Block.idAt location line) :: namesFrom location (line + 1) names

theorem assignNames_spec (location : String) (ordinal : Nat) (taken : Entries String String)
    (operations : List Operation) :
    let assigned := assignNames location ordinal taken operations
    assigned.1.length = operations.length ∧
      (∀ name ∈ assigned.1, Text.lower name ∈ assigned.2.keys) ∧
      (∀ name ∈ taken.keys, name ∈ assigned.2.keys) ∧
      (∀ entry ∈ assigned.2, entry ∈ taken ∨ entry ∈ namesFrom location ordinal assigned.1) ∧
      (taken.keys.Nodup → assigned.2.keys.Nodup) := by
  induction operations generalizing ordinal taken with
  | nil => exact ⟨rfl, by simp [assignNames], fun name known => known, fun entry member => .inl member,
      id⟩
  | cons operation rest ih =>
    simp only [assignNames]
    generalize named : (if taken.has (Text.lower (operationName operation)) then
      s!"{operationName operation}_{ordinal}" else operationName operation) = name
    obtain ⟨length, lower, kept, entries, apart⟩ :=
      ih (ordinal + 1) (taken.put (Text.lower name) (Block.idAt location ordinal))
    refine ⟨by simpa using length, ?_, ?_, ?_, fun distinct => apart (nodup_put distinct _ _)⟩
    · intro other member
      rcases List.mem_cons.mp member with rfl | later
      · exact kept _ (mem_keys_put.mpr (.inl rfl))
      · exact lower other later
    · intro other known
      exact kept other (mem_keys_put.mpr (.inr known))
    · intro entry member
      rcases entries entry member with old | new
      · rcases mem_put old with rfl | old
        · exact .inr List.mem_cons_self
        · exact .inl old
      · exact .inr (List.mem_cons_of_mem _ new)

theorem ids_operationTools (context : Context) (address : List Char) (line : Nat)
    (operations : List (String × Operation)) :
    (operationTools context address line operations).map Tool.id =
      idsFrom context.location line operations.length := by
  induction operations generalizing line with
  | nil => rfl
  | cons operation rest ih =>
    rw [List.length_cons, idsFrom_succ, ← ih (line + 1)]
    rfl

theorem mem_operationTools {context : Context} {address : List Char} {line : Nat}
    {operations : List (String × Operation)} {tool : Tool}
    (member : tool ∈ operationTools context address line operations) :
    tool.tools = [] ∧ tool.toolMapping = [] ∧ tool.localTools = context.localTools := by
  induction operations generalizing line with
  | nil => simp [operationTools] at member
  | cons operation rest ih =>
    rcases List.mem_cons.mp member with rfl | later
    · exact ⟨rfl, rfl, rfl⟩
    · exact ih later

theorem exists_operationTool {context : Context} {address : List Char} {line : Nat}
    {names : List String} {operations : List Operation} (length : names.length = operations.length)
    {entry : String × String} (member : entry ∈ namesFrom context.location line names) :
    ∃ tool ∈ operationTools context address line (names.zip operations),
      entry = (Text.lower tool.name, tool.id) := by
  induction names generalizing line operations with
  | nil => simp [namesFrom] at member
  | cons name names ih =>
    cases operations with
    | nil => simp at length
    | cons operation operations =>
      rw [List.zip_cons_cons]
      rcases List.mem_cons.mp member with rfl | later
      · exact ⟨_, List.mem_cons_self, rfl⟩
      · obtain ⟨tool, known, same⟩ := ih (by simpa using length) later
        exact ⟨tool, List.mem_cons_of_mem _ known, same⟩

theorem name_operationTools {context : Context} {address : List Char} {line : Nat}
    {names : List String} {operations : List Operation} {tool : Tool}
    (member : tool ∈ operationTools context address line (names.zip operations)) :
    tool.name ∈ names := by
  induction names generalizing line operations with
  | nil => simp [operationTools] at member
  | cons name names ih =>
    cases operations with
    | nil => simp [operationTools] at member
    | cons operation operations =>
      rw [List.zip_cons_cons] at member
      rcases List.mem_cons.mp member with rfl | later
      · exact List.mem_cons_self
      · exact List.mem_cons_of_mem _ (ih later)

theorem toolsWithin_eq {exhausts : Value → Bool} {document : Value}
    (held : exhausts document = false) (version : Version) (location workingDir model : String) :
    toolsWithin exhausts document version location workingDir model =
      (Description.read document version location).map (·.tools location workingDir model) := by
  rw [toolsWithin, if_neg (ne_true_of_eq_false held)]

theorem tools_eq (document : Value) (version : Version) (location workingDir model : String) :
    tools document version location workingDir model =
      (Description.read document version location).map (·.tools location workingDir model) :=
  toolsWithin_eq rfl ..

theorem exists_description {document : Value} {version : Version}
    {location workingDir model : String} {found : List Tool}
    (adapted : tools document version location workingDir model = .ok found) :
    ∃ description, Description.read document version location = .ok description ∧
      description.tools location workingDir model = found :=
  map_eq_ok.mp ((tools_eq ..).symm.trans adapted)

theorem tools_eq_ok {document : Value} {version : Version}
    {location workingDir model : String} {found : List Tool}
    (adapted : tools document version location workingDir model = .ok found) :
    ∃ (context : Context) (address : List Char) (title description : String) (names : List String)
      (operations : List Operation),
      context.location = location ∧ names.length = operations.length ∧
      (∀ entry ∈ context.localTools, entry = ("", Block.idAt location 1) ∨
        entry = (Text.lower (titleName title), Block.idAt location 1) ∨
        entry ∈ namesFrom location 2 names) ∧
      (∀ name ∈ titleName title :: names, Text.lower name ∈ context.localTools.keys) ∧
      context.localTools.keys.Nodup ∧
      found = rootTool context title description names ::
        operationTools context address 2 (names.zip operations) := by
  obtain ⟨description, -, rfl⟩ := exists_description adapted
  obtain ⟨length, lower, kept, entries, apart⟩ :=
    assignNames_spec location 2 [] description.operations
  refine ⟨_, description.server, _, _, _, description.operations, rfl, length, ?_, ?_,
    nodup_put (nodup_putNew (apart List.nodup_nil) _ _) _ _, rfl⟩
  · intro entry member
    rcases mem_put member with rfl | old
    · exact .inl rfl
    · rcases mem_putNew old with rfl | old
      · exact .inr (.inl rfl)
      · exact .inr (.inr ((entries entry old).elim (by simp) id))
  · intro name member
    refine mem_keys_put.mpr (.inr (mem_keys_putNew.mpr ?_))
    rcases List.mem_cons.mp member with rfl | later
    · exact .inl rfl
    · exact .inr (lower name later)

end ToolGraph.OpenApi
