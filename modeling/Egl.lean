import Egl.Main
import Egl.Session.Run
import Egl.Proofs.Selection
import Egl.Proofs.Cleanups
import Egl.Proofs.Encoding
import Egl.Proofs.Serving
import Egl.Proofs.Likeness
import Egl.Proofs.TypedCalls
import Egl.Proofs.Endings
import Egl.Proofs.Descriptions
import Egl.Proofs.Failures
import Egl.Proofs.Atomicity
import Egl.Proofs.Layers
import Egl.Proofs.PbufferRun
import Egl.Proofs.Bygones
import Egl.Proofs.Recognition
import Egl.Proofs.PbufferLists
import Egl.Proofs.FillCounts
import Egl.Proofs.Sharing
import Egl.Proofs.Levels
import Egl.Proofs.Attribution
import Egl.Proofs.Joins
import Egl.Proofs.Masks
import Egl.Proofs.Values
import Egl.Proofs.Portraits
import Egl.Proofs.Listings
import Egl.Proofs.MaskTexts
import Egl.Proofs.Messages
import Egl.Proofs.ReceivedTexts
import Egl.Proofs.Installations
