import ToolGraph.Schema
import ToolGraph.Tool.Basic

/-! Reading a tool from data. A field goes by its written name or by the name with underscores. -/
namespace ToolGraph.Tool
open Schema

def checkOrigin : Value → Checked Origin :=
  record (fun entries =>
    Origin.mk
      <$> field entries ["location"] text (some "")
      <*> field entries ["lineNo", "line_no"] whole (some 0))

def check : Value → Checked Tool :=
  record (fun entries =>
    Tool.mk
      <$> field entries ["name"] text (some "")
      <*> field entries ["description"] text (some "")
      <*> field entries ["maxTokens", "max_tokens"] (optional whole) (some none)
      <*> field entries ["modelName", "model_name"] text (some defaultModel)
      <*> field entries ["cache"] (optional bool) (some none)
      <*> field entries ["jsonResponse", "json_response"] (optional bool) (some none)
      <*> field entries ["temperature"] (optional number) (some none)
      <*> field entries ["internalPrompt", "internal_prompt"] (optional bool) (some none)
      <*> field entries ["arguments"] (optional (table any)) (some none)
      <*> field entries ["tools"] (sequence text) (some [])
      <*> field entries ["instructions"] text (some "")
      <*> field entries ["id"] text none
      <*> field entries ["toolMapping", "tool_mapping"] (table text) (some [])
      <*> field entries ["localTools", "local_tools"] (table text) (some [])
      <*> field entries ["source"] checkOrigin (some ⟨"", 0⟩)
      <*> field entries ["workingDir", "working_dir"] text (some ""))

end ToolGraph.Tool
