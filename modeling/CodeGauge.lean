import CodeGauge.Main
import CodeGauge.Proofs.Command.Effects
import CodeGauge.Proofs.History.Regrouping
import CodeGauge.Proofs.Inspection.Chronology
import CodeGauge.Proofs.Inspection.Success
import CodeGauge.Proofs.Inspection.Unparsed
import CodeGauge.Proofs.Repository.Reach
import CodeGauge.Proofs.Measurement.Survey
import CodeGauge.Proofs.Measurement.Blocks
import CodeGauge.Proofs.Measurement.Comments
import CodeGauge.Proofs.Measurement.CommentLines
import CodeGauge.Proofs.Measurement.Halstead
import CodeGauge.Proofs.Report.Places
import CodeGauge.Proofs.Report.Printed
import CodeGauge.Proofs.Report.Sheets
import CodeGauge.Measurement.LimitedSurvey
import CodeGauge.Proofs.Measurement.LimitedSurvey
import CodeGauge.Proofs.Measurement.Means
import CodeGauge.Proofs.Measurement.StringComments
import CodeGauge.Proofs.Repository.Addresses
import CodeGauge.Proofs.Repository.BreadthFirst
import CodeGauge.Proofs.Path.Stems
