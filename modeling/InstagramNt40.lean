import InstagramNt40.Core.DeclaredLengths
import InstagramNt40.Core.FontUnicode
import InstagramNt40.Core.HttpHeap
import InstagramNt40.Core.HttpPrefix
import InstagramNt40.Core.HttpRoundTrip
import InstagramNt40.Core.HttpWhitespace
import InstagramNt40.Core.JsonCorrect
import InstagramNt40.Core.JsonUnicode
import InstagramNt40.Core.JsonCut
import InstagramNt40.Core.ModelImage
import InstagramNt40.Core.ModelOwnership
import InstagramNt40.Core.ModelText
import InstagramNt40.Core.RasterAlpha
import InstagramNt40.Img.PhotoHeap
import InstagramNt40.Img.QoiBuffer
import InstagramNt40.Img.QoiTruncation
import InstagramNt40.Net.ClientHeap
import InstagramNt40.Net.Gmtime
import InstagramNt40.Net.HttpsOwnership
import InstagramNt40.Net.HttpsTruncation
import InstagramNt40.Net.IgBuffer
import InstagramNt40.Net.IgFreshHeaders
import InstagramNt40.Net.PhotoRequest
import InstagramNt40.Net.PrintfC99
import InstagramNt40.Net.SessionBody
import InstagramNt40.Pal.Memory
import InstagramNt40.Ui.BootOwnership
import InstagramNt40.Ui.FeedCaptionBuffer
import InstagramNt40.Ui.FeedLikes
import InstagramNt40.Ui.FeedToggle
import InstagramNt40.Ui.FeedViewport
import InstagramNt40.Ui.Minimise
import InstagramNt40.Ui.Screen
import InstagramNt40.Net.ClientCut
import InstagramNt40.Net.NettestRuns
