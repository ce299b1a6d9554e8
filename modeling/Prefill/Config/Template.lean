import Prefill.Text.Basic

/-! The settings file for a new project: every field with its default, and what it is for. -/

namespace Prefill.Config

def templateLines : List String :=
  ["# goahead configuration",
   "#",
   "# All fields are optional; the values below are the defaults.",
   "",
   "# Go toolchain executable used to run helper drivers and resolve packages.",
   "go_binary: go",
   "",
   "# Retries when a driver fails with nothing but temporary-file cleanup noise",
   "# on stderr (seen on systems with mandatory file locking).",
   "max_retries: 3",
   "",
   "# Back-off unit between retries, in milliseconds (attempt n waits n * unit).",
   "retry_backoff_ms: 200",
   "",
   "# Upper bound on threads used to probe files for the helper marker.",
   "scan_threads: 8",
   "",
   "# Glob patterns (relative to the project root) skipped during discovery.",
   "excluded_paths: []",
   "#  - \"**/generated/**\"",
   "#  - \"third_party/**\""]

def template : Text := templateLines.flatMap fun line => line.toList ++ ['\n']

end Prefill.Config
