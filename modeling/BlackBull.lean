import BlackBull.BodyDecoding
import BlackBull.HeaderBlockContiguity
import BlackBull.DecoderSync
import BlackBull.RequestOrigins
import BlackBull.HeaderBlockFragmentation
import BlackBull.FlowControl
import BlackBull.ResponseCompletion
import BlackBull.ResponseSerialisation
import BlackBull.HeadOutcomes
import BlackBull.ErrorContainment
import BlackBull.InboundMemory
import BlackBull.MqttRoundTrip
import BlackBull.PublishAuthorisation
import BlackBull.Qos2ExactlyOnce
import BlackBull.HeadIndependence
import BlackBull.ForwardingChains
import BlackBull.CacheSoundness
import BlackBull.WebSocketCodec
import BlackBull.PacketFraming
import BlackBull.FrameSizes
import BlackBull.BooksBounded
import BlackBull.RouteLookup
import BlackBull.RequestLines
import BlackBull.NativeResponses
import BlackBull.HeadResponses
import BlackBull.BodyRefusal
import BlackBull.FieldCanonical
import BlackBull.ClientTables
import BlackBull.ReplyMasking
import BlackBull.PrefixReplay
import BlackBull.ProtocolDetection
import BlackBull.AssignedIdentifiers
import BlackBull.RouteCache
import BlackBull.GrpcMessages
import BlackBull.GzipMessages
import BlackBull.CodingNegotiation
import BlackBull.StaticCache
import BlackBull.ClientCredit
import BlackBull.EventStream
import BlackBull.HeadScan
import BlackBull.FrameVerdicts
import BlackBull.MessageInflation
import BlackBull.MessageReception
