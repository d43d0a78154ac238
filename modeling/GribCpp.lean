import GribCpp.Api.Points
import GribCpp.Core.RateContention
import GribCpp.Core.RateSafety
import GribCpp.Decode.Ownership
import GribCpp.Decode.WarmUpProgress
import GribCpp.Http.Answers
import GribCpp.Http.RetryingClient
import GribCpp.Http.EasyHandle
import GribCpp.Http.HeaderBlocks
import GribCpp.Http.Lifecycle
import GribCpp.Http.Sink
import GribCpp.Http.Urls
import GribCpp.Models.CutIndex
import GribCpp.Models.Growth
import GribCpp.Models.Members
import GribCpp.Workflow.EcmwfRanges
import GribCpp.Workflow.NomadsMessages
import GribCpp.Workflow.NomadsRanges
import GribCpp.Workflow.Selection
import GribCpp.Workflow.Whole
import GribCpp.Lib.Ulp
import GribCpp.Api.Accessors
import GribCpp.Api.Handles
import GribCpp.Decode.Closest
import GribCpp.Decode.Longitude
import GribCpp.Http.ErrorResponse
import GribCpp.Workflow.Ensembles
import GribCpp.Workflow.Formats
