import Folio.Decimal.Significant
import Folio.Main
import Folio.Proofs.Act
import Folio.Proofs.Paragraph.Conservation
import Folio.Proofs.Scalar.Rational
import Folio.Proofs.Html.Reader
import Folio.Proofs.Html.Sheet
import Folio.Proofs.Layout.Call
import Folio.Proofs.Layout.Document
import Folio.Proofs.Pdf.Isolation
import Folio.Proofs.Layout.Passing
import Folio.Proofs.Pdf.Fatal
import Folio.Proofs.Pdf.Tame
import Folio.Proofs.Pdf.Skipping
import Folio.Proofs.Html.Element
import Folio.Proofs.Layout.Attempt
import Folio.Proofs.Layout.Request
import Folio.Proofs.Layout.Counting
import Folio.Proofs.Layout.Past
import Folio.Proofs.Layout.Boundary
import Folio.Proofs.Files.Hollow
import Folio.Proofs.Image.Storing
import Folio.Proofs.Layout.Channel
import Folio.Proofs.Paragraph.Translation
import Folio.Proofs.Font.Reach
import Folio.Proofs.Font.Table
import Folio.Proofs.Layout.Refusal
import Folio.Proofs.Pdf.Mirror
import Folio.Proofs.Pdf.Sharing
import Folio.Proofs.Pdf.Recording
import Folio.Proofs.Pdf.Balance
import Folio.Proofs.Pdf.Nesting
import Folio.Proofs.Pdf.Filling
import Folio.Proofs.Layout.Labelling
import Folio.Proofs.Image.Clash
import Folio.Proofs.Conversion.Failure
import Folio.Proofs.Conversion.Agreement
import Folio.Proofs.CommandLine.References
import Folio.Proofs.Paragraph.Merging
import Folio.Proofs.Paragraph.LineMode
import Folio.Proofs.Conversion.Escape
import Folio.Proofs.Pdf.Unfinished
import Folio.Proofs.Paragraph.Geometry
import Folio.Proofs.Paragraph.Bounds
import Folio.Proofs.Paragraph.Turning
import Folio.Proofs.Paragraph.Fitting
import Folio.Proofs.Pdf.Contiguous
import Folio.Proofs.Pdf.Expansion
import Folio.Proofs.Pdf.Groups
import Folio.Proofs.Geometry.Page
import Folio.Proofs.Image.Placement
import Folio.Proofs.Path.Accounting
import Folio.Proofs.Path.Rectangle
import Folio.Proofs.Layout.Painting
import Folio.Proofs.Image.Attempts
import Folio.Proofs.Font.Gathering
import Folio.Proofs.Decimal.Rounding
import Folio.Proofs.Decimal.Thousandths
import Folio.Proofs.Font.Identifier
import Folio.Proofs.Html.Attributes
