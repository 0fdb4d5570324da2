import Ssr.Lib.Run
import Ssr.Apf.CommandQueue
import Ssr.Apf.Proof.CommandQueue
import Ssr.Apf.Proof.CommandLoss
import Ssr.Control.Subscribers
import Ssr.Net.Transport
import Ssr.Lib.OrdMap
import Ssr.Scene.Scene
import Ssr.Renderer.Command
import Ssr.Scene.Geometry
import Ssr.Renderer.LoudspeakerRenderer
import Ssr.Renderer.Proof.LoudspeakerRenderer
import Ssr.Renderer.RendererBase
import Ssr.Renderer.Proof.Execute
import Ssr.Renderer.Proof.AddSource
import Ssr.Path.PosixPathTools
import Ssr.Xml.Node
import Ssr.Control.Controller
import Ssr.Control.View
import Ssr.Control.Proof.Views
import Ssr.Control.Proof.LoadScene
import Ssr.Control.Proof.Agree
import Ssr.Control.Proof.DeleteSource
import Ssr.Control.Proof.Forget
import Ssr.Control.NewSource
import Ssr.Control.Proof.NewSource
import Ssr.Control.SaveScene
import Ssr.Path.Proof.Resolve
import Ssr.Control.Proof.SavedDocument
import Ssr.Control.Proof.Loading
import Ssr.Control.Proof.SaveScene
import Ssr.Apf.Convolver
import Ssr.Apf.Proof.Coefficients
import Ssr.Lib.BlockConvolution
import Ssr.Apf.Proof.Convolver
import Ssr.Apf.FifoThreads
import Ssr.Apf.Proof.FifoThreads
import Ssr.Apf.Proof.CommandOrder
import Ssr.Apf.MimoProcessor
import Ssr.Apf.Proof.MimoProcessor
import Ssr.Renderer.Proof.TwoThreads
import Ssr.Control.Proof.QueryState
import Ssr.Control.PublishThreads
import Ssr.Control.Proof.PublishThreads
import Ssr.Apf.RtList
import Ssr.Net.Connection
import Ssr.Apf.Proof.RtList
import Ssr.Apf.Container
import Ssr.Renderer.Proof.SourceToOutput
import Ssr.Apf.ConvolverOutput
import Ssr.Apf.Crossfade
import Ssr.Renderer.BinauralRenderer
import Ssr.Renderer.BrsRenderer
import Ssr.Renderer.Proof.Crossfade
import Ssr.Apf.Proof.ConvolverOutput
import Ssr.Renderer.Proof.OneFilter
import Ssr.Apf.CombineChannels
import Ssr.Apf.Proof.CombineChannels
import Ssr.Apf.BlockDelayLine
import Ssr.Lib.Circular
import Ssr.Apf.Proof.BlockDelayLine
import Ssr.Path.Proof.CleanPath
import Ssr.Path.Proof.Conversions
import Ssr.Apf.Biquad
import Ssr.Apf.Proof.Biquad
import Ssr.Apf.ProcessLists
import Ssr.Apf.Proof.ProcessLists
import Ssr.Renderer.NfcHoaRenderer
import Ssr.Renderer.Proof.NfcHoaRenderer
import Ssr.Lib.Sorted
import Ssr.Renderer.VbapRenderer
import Ssr.Apf.Proof.CMath
import Ssr.Renderer.Proof.VbapTable
import Ssr.Renderer.Proof.VbapWeights
import Ssr.Control.Configuration
import Ssr.Control.Proof.Configuration
import Ssr.Net.CommandParser
import Ssr.Net.Proof.CommandParser
import Ssr.Net.NetworkSubscriber
import Ssr.Net.Proof.NetworkSubscriber
import Ssr.Lib.Istream
import Ssr.Apf.String2Time
import Ssr.Apf.Proof.String2Time
import Ssr.Apf.ParameterMap
import Ssr.Apf.Proof.LockFreeFifo
import Ssr.Renderer.HoaCoefficients
import Ssr.Renderer.Proof.HoaCoefficients
import Ssr.Control.AudioPlayer
import Ssr.Control.Proof.AudioPlayer
import Ssr.Apf.FixedMatrix
import Ssr.Lib.RowMajor
import Ssr.Apf.Proof.FixedMatrix
import Ssr.Apf.CircularIterator
import Ssr.Apf.Proof.CircularIterator
import Ssr.Apf.Cascade
import Ssr.Apf.Interpolation
import Ssr.Apf.Proof.Cascade
import Ssr.Apf.Proof.Interpolation
import Ssr.Renderer.AapRenderer
import Ssr.Renderer.NfcHoaMode
import Ssr.Renderer.Proof.NfcHoaMode
import Ssr.Renderer.Proof.PanningGains
import Ssr.Apf.Fade
import Ssr.Apf.Proof.Fade
import Ssr.Renderer.Proof.Motion
import Ssr.Renderer.Proof.WfsOutput
import Ssr.Renderer.BrsProcess
import Ssr.Renderer.Proof.BrsOutput
import Ssr.Renderer.GenericRenderer
import Ssr.Renderer.Proof.GenericOutput
import Ssr.Lib.Packets
import Ssr.Net.Reading
import Ssr.Net.Lifetime
import Ssr.Renderer.Proof.WfsProcess
import Ssr.Renderer.BinauralProcess
import Ssr.Renderer.Proof.BinauralOutput
import Ssr.Renderer.Proof.Directions
import Ssr.Renderer.NfcHoaProcess
import Ssr.Renderer.Proof.NfcHoaOutput
