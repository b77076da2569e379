import ImportAtlas.Report.Json
import ImportAtlas.Report.Markdown

/-! The text of a report in each format. -/

namespace ImportAtlas

/-- A report as it is printed. -/
def Report.text (report : Report) : ReportFormat → String
  | .json => report.toJson.text ++ "\n"
  | .markdown => report.markdown

end ImportAtlas
