import Courier.Environment.Basic

/-!
# What the program says about itself

The version of the program and the texts that explain it and its command, line by line.
-/

namespace Courier.Command

/-- The version of the program. -/
def version : String := "0.3.0"

/-- The text of lines, each with a line feed. -/
def textOfLines (lines : List String) : String := String.join (lines.map (· ++ "\n"))

def versionLines : List String := [s!"{Environment.exporter} {version}"]

/-- What the program does. -/
def programHelp : List String := [
  "usage: bru2postman [-h] [--version] \x7bconvert\x7d ...",
  "",
  "Bru2Postman v0.3.0",
  "License: GPLv3 (https://www.gnu.org/licenses/gpl-3.0.html)",
  "Author: Huberto Gastal Mayer (hubertogm@gmail.com)",
  "",
  "Bru2Postman - Converts Bruno collections (.bru) into Postman v2.1 collections.",
  "",
  "positional arguments:",
  "  \x7bconvert\x7d   Available commands",
  "    convert   Convert a .bru file or a Bruno collection directory.",
  "",
  "options:",
  "  -h, --help  show this help message and exit",
  "  --version   show program's version number and exit"]

/-- What the command that converts does. -/
def convertHelp : List String := [
  "usage: bru2postman convert [-h] [-o OUTPUT] [-n NAME] [-v] [--json] [--env]",
  "                           [--experimental-ast] [--upload]",
  "                           [--collection-id COLLECTION_ID]",
  "                           [--postman-api-key POSTMAN_API_KEY]",
  "                           [--config CONFIG] [--log-file LOG_FILE]",
  "                           input",
  "",
  "Converts a single .bru request or a whole Bruno collection directory into a",
  "Postman v2.1 collection (.json).",
  "",
  "positional arguments:",
  "  input                 Path to a .bru file or a Bruno collection directory.",
  "",
  "options:",
  "  -h, --help            show this help message and exit",
  "  -o OUTPUT, --output OUTPUT",
  "                        Output .json file (default:",
  "                        <input>.postman_collection.json).",
  "  -n NAME, --name NAME  Collection name (overrides bruno.json).",
  "  -v, --verbose         Show debug output.",
  "  --json                Print the batch report as JSON.",
  "  --env                 Also convert environments/*.bru into Postman",
  "                        environment files.",
  "  --experimental-ast    Use AST-based script conversion (falls back to line",
  "                        based on failure).",
  "  --upload              Upload the converted collection to Postman Cloud.",
  "  --collection-id COLLECTION_ID",
  "                        Postman collection id to update.",
  "  --postman-api-key POSTMAN_API_KEY",
  "                        Postman API key (default: POSTMAN_API_KEY environment",
  "                        variable).",
  "  --config CONFIG       Config file (default: bru2postman.yaml in the input",
  "                        directory).",
  "  --log-file LOG_FILE   Also write the full log to this file."]

end Courier.Command
