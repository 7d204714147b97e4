import ZenRemote.Core.ReadersWriterLock
import ZenRemote.Core.Signal
import ZenRemote.Client.BufferBlocks
import ZenRemote.Client.CommitSettles
import ZenRemote.Client.CommitSnapshot
import ZenRemote.Client.ContainerForEach
import ZenRemote.Client.ContainerLookup
import ZenRemote.Client.HandlerSession
import ZenRemote.Client.Keepalive
import ZenRemote.Client.NameLife
import ZenRemote.Client.RequestSafety
import ZenRemote.Client.SessionContext
import ZenRemote.Client.SessionControl
import ZenRemote.Client.TechniqueDamage
import ZenRemote.Client.TextureReplay
import ZenRemote.Client.UniformNames
import ZenRemote.Client.UniformSafety
import ZenRemote.Client.VertexArrayReplay
import ZenRemote.EndToEnd
import ZenRemote.Server.Busyness
import ZenRemote.Server.ChannelLife
import ZenRemote.Server.Descriptors
import ZenRemote.Server.GlBaseTechnique
import ZenRemote.Server.GlTexture
import ZenRemote.Server.PeerExpiry
import ZenRemote.Convergence
import ZenRemote.Connection
import ZenRemote.Connection.Agreement
import ZenRemote.Client.RemoteMethods
import ZenRemote.Client.Frame
import ZenRemote.Client.FrameIsolation
import ZenRemote.Client.FrameCalls
