import TptTelemetry.Lib.Text

namespace TptTelemetry.Dsl.Patterns

open TptTelemetry.Lib.Text

structure GrokPattern where
  name : Str
  regex : Str

def pattern (name : String) (regex : List String) : GrokPattern :=
  ⟨name.toList, regex.flatMap String.toList⟩

/-- The table of the library. A long expression is cut into parts, and a brace
is written by its code. -/
def standardPatterns : List GrokPattern := [
  pattern "BASE10NUM" ["(?:[+-]?(?:(?:[0-9]+(?:\\.[0-9]+)?)|(?:\\.[0-9]+)))"],
  pattern "BASE16NUM" ["(?:[+-]?(?:0x)?(?:[0-9A-Fa-f]+))"],
  pattern "BASE16FLOAT" [
    "(?:[+-]?(?:0x)?",
    "(?:(?:[0-9A-Fa-f]+(?:\\.[0-9A-Fa-f]*)?)|(?:\\.[0-9A-Fa-f]+)))"],
  pattern "NUMBER" ["(?:%\x7bBASE10NUM\x7d)"],
  pattern "POSINT" ["(?:[1-9][0-9]*)"],
  pattern "NONNEGINT" ["(?:[0-9]+)"],
  pattern "INT" ["(?:[+-]?(?:[0-9]+))"],
  pattern "WORD" ["\\b\\w+\\b"],
  pattern "NOTSPACE" ["\\S+"],
  pattern "SPACE" ["\\s*"],
  pattern "DATA" [".*?"],
  pattern "GREEDYDATA" [".*"],
  pattern "QS" ["(?:[\\x22][^\\x22]*[\\x22]|[\\x22][\\x22]|[^\\x22]*)"],
  pattern "IPV4" [
    "(?:(?:25[0-5]|2[0-4][0-9]|[0-1]?[0-9]\x7b1,2\x7d)[.]",
    "(?:25[0-5]|2[0-4][0-9]|[0-1]?[0-9]\x7b1,2\x7d)[.]",
    "(?:25[0-5]|2[0-4][0-9]|[0-1]?[0-9]\x7b1,2\x7d)[.]",
    "(?:25[0-5]|2[0-4][0-9]|[0-1]?[0-9]\x7b1,2\x7d))"],
  pattern "IPV6" [
    "(?:[::fF]\x7b1,4\x7d:)\x7b1,7\x7d(?:[0-9a-fA-F]\x7b1,4\x7d|:)|",
    "(?:[0-9a-fA-F]\x7b1,4\x7d:)\x7b1,7\x7d:|",
    "(?:[0-9a-fA-F]\x7b1,4\x7d:)\x7b7\x7d[0-9a-fA-F]\x7b1,4\x7d|",
    "(?:[0-9a-fA-F]\x7b1,4\x7d:)\x7b1,6\x7d:[0-9a-fA-F]\x7b1,4\x7d|",
    "(?:[0-9a-fA-F]\x7b1,4\x7d:)\x7b1,5\x7d(?::[0-9a-fA-F]\x7b1,4\x7d)\x7b1,2\x7d|",
    "(?:[0-9a-fA-F]\x7b1,4\x7d:)\x7b1,4\x7d(?::[0-9a-fA-F]\x7b1,4\x7d)\x7b1,3\x7d|",
    "(?:[0-9a-fA-F]\x7b1,4\x7d:)\x7b1,3\x7d(?::[0-9a-fA-F]\x7b1,4\x7d)\x7b1,4\x7d|",
    "(?:[0-9a-fA-F]\x7b1,4\x7d:)\x7b1,2\x7d(?::[0-9a-fA-F]\x7b1,4\x7d)\x7b1,5\x7d|",
    "[0-9a-fA-F]\x7b1,4\x7d:(?:(?::[0-9a-fA-F]\x7b1,4\x7d)\x7b1,6\x7d)|",
    ":(?:(?::[0-9a-fA-F]\x7b1,4\x7d)\x7b1,7\x7d|:)|",
    "fe80:(?::[0-9a-fA-F]\x7b0,4\x7d)\x7b0,4\x7d%[0-9a-zA-Z]\x7b1,\x7d|",
    "::(?:ffff(?::0\x7b1,4\x7d)\x7b0,1\x7d:)\x7b0,1\x7d",
    "(?:(?:25[0-5]|(?:2[0-4]|1\x7b0,1\x7d[0-9])\x7b0,1\x7d[0-9])\\.)\x7b3,3\x7d",
    "(?:25[0-5]|(?:2[0-4]|1\x7b0,1\x7d[0-9])\x7b0,1\x7d[0-9])|",
    "(?:[0-9a-fA-F]\x7b1,4\x7d:)\x7b1,4\x7d:",
    "(?:(?:25[0-5]|(?:2[0-4]|1\x7b0,1\x7d[0-9])\x7b0,1\x7d[0-9])\\.)\x7b3,3\x7d",
    "(?:25[0-5]|(?:2[0-4]|1\x7b0,1\x7d[0-9])\x7b0,1\x7d[0-9])"],
  pattern "IP" ["(?:%\x7bIPV6\x7d|%\x7bIPV4\x7d)"],
  pattern "MAC" ["(?:(?:[0-9A-Fa-f]\x7b2\x7d(?::|-))\x7b5\x7d[0-9A-Fa-f]\x7b2\x7d)"],
  pattern "EMAILADDRESS" ["[a-zA-Z0-9._%+\\-]+@[a-zA-Z0-9.\\-]+\\.[a-zA-Z]\x7b2,\x7d"],
  pattern "MONTH" ["\\b(?:Jan|Feb|Mar|Apr|May|Jun|Jul|Aug|Sep|Oct|Nov|Dec)\\b"],
  pattern "MONTHDAY" ["(?:0[1-9]|[12][0-9]|3[01]|[1-9])"],
  pattern "YEAR" ["(?:\\d\\d)\x7b1,2\x7d"],
  pattern "HOUR" ["(?:2[0123]|[01]?[0-9])"],
  pattern "MINUTE" ["(?:[0-5][0-9])"],
  pattern "SECOND" ["(?:(?:[0-5]?[0-9]|60)(?:[.,][0-9]+)?)"],
  pattern "TIME" [
    "(?:2[0123]|[01]?[0-9]):(?:[0-5][0-9])",
    "(?::(?:(?:[0-5]?[0-9]|60)(?:[.,][0-9]+)?))?"],
  pattern "MONTHNUM" ["(?:0?[1-9]|1[0-2])"],
  pattern "MONTHNUM2" ["(?:0[1-9]|1[0-2])"],
  pattern "ISO8601_SECOND" [
    "(?:\\d\\d)\x7b1,2\x7d-(?:0?[1-9]|1[0-2])-(?:0[1-9]|[12][0-9]|3[01]|[1-9])",
    "[T ](?:2[0123]|[01]?[0-9]):?(?:[0-5][0-9])(?::?(?:(?:[0-5]?[0-9]|60)(?:[.,][0-9]+)?))?"],
  pattern "HOSTNAME" [
    "\\b(?:[0-9A-Za-z][0-9A-Za-z-]\x7b0,62\x7d)",
    "(?:\\.[0-9A-Za-z][0-9A-Za-z-]\x7b0,62\x7d)*\\b"],
  pattern "PORT" ["(?:[0-9]+)"],
  pattern "USERNAME" ["[a-zA-Z0-9._-]+"],
  pattern "USER" ["%\x7bUSERNAME\x7d"]]

def lookup (name : Str) : Option Str :=
  (standardPatterns.find? (fun p => p.name = name)).map GrokPattern.regex

end TptTelemetry.Dsl.Patterns
