/-
The answers to questions about the tool itself.
-/
import Verdicts.Invocation.Basic

namespace Verdicts

/-- The name of the tool. -/
def toolName : String := "kindly"

/-- The version of the tool. -/
def toolVersion : String := "0.1.0"

/-- The answer to the question for the version. -/
def versionText : String := toolName ++ " " ++ toolVersion ++ "\n"

namespace HelpTopic

/-- What a topic is about. -/
def summary : HelpTopic → String
  | overview => "Explain compositional verification results"
  | check => "Verify a program and print suggestions"
  | replay => "Explain a previously captured engine output"
  | doctor => "Check that the engine is installed and usable"
  | help => "Print this message or the help of the given subcommand(s)"

/-- How a command line is put together. -/
def usage : HelpTopic → String
  | overview => "[OPTIONS] <COMMAND>"
  | check => "check [OPTIONS] <PROGRAM> [-- <ENGINE_ARGS>...]"
  | replay => "replay [OPTIONS] <OUTPUT>"
  | doctor => "doctor [OPTIONS]"
  | help => "help [COMMAND]..."

/-- The lists behind the usage: a title, and items with what they mean. -/
def lists : HelpTopic → List (String × List (String × String))
  | overview =>
    [("Commands",
        [("check", check.summary), ("replay", replay.summary), ("doctor", doctor.summary),
          ("help", help.summary)]),
      ("Options",
        [("-v, --verbose...", "Increase log verbosity (-v info, -vv debug)"),
          ("-h, --help", "Print help"), ("-V, --version", "Print version")])]
  | check =>
    [("Arguments",
        [("<PROGRAM>", "Program file"),
          ("[ENGINE_ARGS]...", "Extra engine arguments, passed verbatim")]),
      ("Options",
        [("    --timeout <TIMEOUT>", "Engine timeout in seconds (overrides kindly.toml)"),
          ("-v, --verbose...", "Increase log verbosity (-v info, -vv debug)"),
          ("    --main <MAIN>", "Top node to verify"),
          ("    --report <REPORT>", "Report format (human, json)"),
          ("    --save-output <SAVE_OUTPUT>",
            "Save the engine's raw output for `kindly replay`"),
          ("-h, --help", "Print help")])]
  | replay =>
    [("Arguments", [("<OUTPUT>", "Captured output file")]),
      ("Options",
        [("    --report <REPORT>", "Report format (human, json)"),
          ("-v, --verbose...", "Increase log verbosity (-v info, -vv debug)"),
          ("-h, --help", "Print help")])]
  | doctor =>
    [("Options",
        [("-v, --verbose...", "Increase log verbosity (-v info, -vv debug)"),
          ("-h, --help", "Print help")])]
  | help => [("Arguments", [("[COMMAND]...", "Print help for the subcommand(s)")])]

/-- A list, its items in a column. -/
def listText (title : String) (items : List (String × String)) : String :=
  let width := items.foldl (fun w item => max w item.1.length) 0
  "\n" ++ title ++ ":\n" ++ String.join (items.map fun (item, meaning) =>
    "  " ++ item ++ String.ofList (List.replicate (width - item.length + 2) ' ') ++ meaning ++ "\n")

/-- The help on a topic. -/
def text (topic : HelpTopic) : String :=
  topic.summary ++ "\n\nUsage: " ++ toolName ++ " " ++ topic.usage ++ "\n"
    ++ String.join (topic.lists.map fun (title, items) => listText title items)

end HelpTopic

end Verdicts
