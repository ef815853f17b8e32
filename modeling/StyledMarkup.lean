import StyledMarkup.Main
import StyledMarkup.Proofs.Builder.Splice
import StyledMarkup.Proofs.Builder.Termination
import StyledMarkup.Proofs.Mixin
import StyledMarkup.Proofs.Rendering
import StyledMarkup.Proofs.Variable
import StyledMarkup.Proofs.Markup.Structure
import StyledMarkup.Proofs.Document.Order
import StyledMarkup.Proofs.Stylesheet
import StyledMarkup.Proofs.Statement.Lines
import StyledMarkup.Proofs.RoundTrip
import StyledMarkup.Proofs.Statement.Content
import StyledMarkup.Proofs.Statement.Rescan
import StyledMarkup.Proofs.Builder.Twins
import StyledMarkup.Proofs.Relocation
import StyledMarkup.Proofs.Separation
import StyledMarkup.Proofs.Override
import StyledMarkup.Proofs.Statement.OneLine
import StyledMarkup.Proofs.Recompile
import StyledMarkup.Proofs.Comment
import StyledMarkup.Proofs.Resolution
import StyledMarkup.Proofs.Collision
import StyledMarkup.Proofs.Location
import StyledMarkup.Proofs.Builder.Frame
import StyledMarkup.Proofs.Builder.Attribute
import StyledMarkup.Proofs.Document.Balance
import StyledMarkup.Proofs.Markup.Attributes
import StyledMarkup.Proofs.Markup.Multiline
import StyledMarkup.Proofs.Builder.Declaration
import StyledMarkup.Proofs.Statement.Terminator
import StyledMarkup.Proofs.Markup.Literal
import StyledMarkup.Proofs.Include
import StyledMarkup.Proofs.Statement.Unterminated
import StyledMarkup.Proofs.Page
import StyledMarkup.Proofs.FileSystem
import StyledMarkup.Proofs.Site.Route
import StyledMarkup.Proofs.Site.Index
import StyledMarkup.Proofs.Library
import StyledMarkup.Proofs.Pieces
import StyledMarkup.Proofs.FileSystem.Directory
import StyledMarkup.Proofs.Site.Confinement
import StyledMarkup.Proofs.Site.Mirror
import StyledMarkup.Proofs.Spelling
import StyledMarkup.Proofs.Markup.OpenTag
import StyledMarkup.Proofs.Document.Built
